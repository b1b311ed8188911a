import MergeGrammar.Proofs.LicencePrefix
import MergeGrammar.Proofs.ParallelSearches
import MergeGrammar.Proofs.TableGrowth

/-!
# Stability of prefixes

The session of a sentence, whose graph begins with that of the first words, reads these words as
their own session does: every step tells the same and leaves the same tables. Later steps write
behind what they find.
-/

namespace MergeGrammar

/-- With the same limit two searches are the same. -/
lemma Climb.Trails.eq {a b : Setting} {read : Array WordPart} {c d : Climb}
    (h : c.Trails a b read d) (equal : b.options.maxRoutes = a.options.maxRoutes) : d = c := by
  cases h with
  | same => rfl
  | cut below => exact absurd equal below.ne'

namespace Reading

/-- The reading of another sentence, with the same parts read. -/
def withTokens (reading : Reading) (tokens : List EntryId) : Reading := { reading with tokens }

lemma tokens_advance (graph : Graph) (reading : Reading) :
    (reading.advance graph).2.tokens = reading.tokens := by
  rw [advance]
  split
  · rw [first]
    split <;> rfl
  · rw [next]
    split
    · rfl
    · split
      · rfl
      · split <;> rfl

/-- A reading that gives a part gives the same one if the sentence is longer. -/
lemma advance_withTokens {graph longer : Graph} {reading after : Reading} {part : WordPart}
    {tokens : List EntryId} (begins : graph.Begins longer)
    (read_lt : ∀ part ∈ reading.wordParts, part.entry < graph.entries.size)
    (begun : reading.tokens <+: tokens) (hread : reading.advance graph = (some part, after)) :
    (reading.withTokens tokens).advance longer = (some part, after.withTokens tokens) := by
  obtain ⟨shorter, entered, wordParts, exhausted⟩ := reading
  obtain ⟨further, rfl⟩ := begun
  rw [withTokens]
  rw [advance] at hread ⊢
  split at hread
  · next hempty =>
    rw [if_pos hempty]
    cases shorter with
    | nil => cases hread
    | cons token shorter =>
      cases hread
      rfl
  · next hempty =>
    rw [if_neg hempty]
    rw [next, current?] at hread ⊢
    dsimp only at hread read_lt ⊢
    split at hread
    · cases hread
    · next current hcurrent =>
      have hlt : current.entry < graph.entries.size := by
        split at hcurrent
        · cases hcurrent
        · exact read_lt current (Array.mem_of_back? hcurrent)
      rw [hcurrent]
      dsimp only
      rw [begins.entry_eq hlt]
      cases hnext : (graph.entry current.entry).nextPart? with
      | some entry =>
        simp only [hnext] at hread ⊢
        cases hread
        rfl
      | none =>
        simp only [hnext] at hread ⊢
        cases htoken : shorter[entered]? with
        | none =>
          simp only [htoken] at hread
          cases hread
        | some entry =>
          have htoken' : (shorter ++ further)[entered]? = some entry := by
            rw [List.getElem?_append_left (List.getElem?_eq_some_iff.1 htoken).1, htoken]
          simp only [htoken, htoken'] at hread ⊢
          cases hread
          rfl

end Reading

/-- What a step tells about a word part, given its licences, the edges and the search. -/
def StepResult.of (tracing : Bool) (part : WordPart) (licences : List (FeatureId × Licence))
    (edges : List Licence) (searched : Climb × Nat) (reading : Reading) : StepResult :=
  let result : StepResult :=
    { part
      edges
      routes := searched.1.added.toList
      passes := searched.2
      capped := searched.1.capped
      attempts := searched.1.attempts
      events := [] }
  let metrics := result.metrics
  let before := licences.map (fun (feature, licence) => Event.licensed feature licence) ++
    edges.map Event.joined
  let after := Event.stepped part (reading.closest?.map WordPart.signal)
    reading.earlier.size metrics.merges metrics.adjunctions metrics.routesAdded searched.2
  { result with
    events := if tracing then before ++ searched.1.events.reverse ++ [after]
      else searched.1.events.reverse }

namespace Session

/-- What the step that reads a part tells. -/
def told (session : Session) (tracing : Bool) (part : WordPart) : StepResult :=
  .of tracing part (session.licensing.activate session.graph part).2
    (session.search.openPart.joinAll (session.licences part)).2 (session.searched tracing part)
    session.read.2

lemma absorb_fst (session : Session) (tracing : Bool) (part : WordPart) :
    (({ session with reading := session.read.2 } : Session).absorb tracing part).1 =
      session.told tracing part := by
  -- As in `absorb_entered`, the search is abstracted before anything is compared.
  unfold told absorb searched enter setting licences
  dsimp only
  generalize session.licensing.activate session.graph part = activated
  obtain ⟨licensing, licences⟩ := activated
  dsimp only
  generalize session.search.openPart.joinAll (licences.map Prod.snd) = joined
  obtain ⟨search, edges⟩ := joined
  dsimp only
  generalize Climb.settle _ _ = settled
  obtain ⟨climb, passes⟩ := settled
  rfl

lemma stepTracing_told {session : Session} {part : WordPart} (hread : session.read.1 = some part)
    (tracing : Bool) : session.stepTracing tracing =
      (.ok (session.told tracing part),
        session.entered tracing part (session.told tracing part)) := by
  obtain ⟨result, -, habsorb⟩ := session.absorb_entered tracing part
  have hresult := session.absorb_fst tracing part
  rw [habsorb] at hresult
  rw [← hresult, stepTracing]
  simp only [hread, habsorb]

/-- A session, and one of a longer sentence in a larger graph that has read and found the same. -/
structure Begins (s t : Session) : Prop where
  graph : s.graph.Begins t.graph
  enclosed : s.graph.Enclosed
  options_eq : t.options = s.options
  tokens : s.reading.tokens <+: t.reading.tokens
  reading_eq : t.reading = s.reading.withTokens t.reading.tokens
  read_lt : ∀ part ∈ s.reading.wordParts, part.entry < s.graph.entries.size
  licensing : s.licensing.Embeds s.graph t.licensing
  search_eq : t.search = s.search
  metrics_eq : t.metrics = s.metrics

namespace Begins

variable {s t : Session} (h : s.Begins t)
include h

section Entering

variable {part : WordPart} (hlt : part.entry < s.graph.entries.size)
include hlt

lemma activate : (s.licensing.activate s.graph part).1.Embeds s.graph
      (t.licensing.activate t.graph part).1 ∧
    (t.licensing.activate t.graph part).2 = (s.licensing.activate s.graph part).2 :=
  Licensing.activate_embeds h.graph h.enclosed h.licensing hlt

lemma licences_eq : t.licences part = s.licences part := by
  rw [licences, licences, (h.activate hlt).2]

lemma enter_search : (t.enter part).search = (s.enter part).search := by
  rw [enter, enter, h.licences_eq hlt, h.search_eq]

variable (stage : Stage s) (hread : s.read.1 = some part)
include hread stage

lemma entered_lt : ∀ other ∈ (s.enter part).reading.wordParts,
    other.entry < s.graph.entries.size := by
  intro other hother
  have hother : other ∈ s.read.2.wordParts := hother
  rw [(read_some stage.coherent.ordered hread).1] at hother
  rcases Array.mem_push.1 hother with hother | rfl
  · exact h.read_lt other hother
  · exact hlt

lemma within (tracing : Bool) :
    (s.setting tracing).Within (s.enter part).reading.wordParts (t.setting tracing) where
  shares := by
    refine ⟨fun other standing => ?_, fun other standing id hid => ?_⟩
    · exact h.graph.entry_eq (h.entered_lt hlt stage hread other standing.mem)
    · exact h.graph.feature_eq id (h.enclosed.features_lt _ id hid)
  policy_eq := congrArg Options.policy h.options_eq
  profileCap_eq := congrArg Options.profileCap h.options_eq
  checkAgreement_eq := congrArg Options.checkAgreement h.options_eq
  tracing_eq := rfl
  maxRoutes_le := (congrArg Options.maxRoutes h.options_eq).ge

lemma searched_eq (tracing : Bool) : t.searched tracing part = s.searched tracing part := by
  have equal : (t.setting tracing).options.maxRoutes = (s.setting tracing).options.maxRoutes :=
    congrArg Options.maxRoutes h.options_eq
  have entered := stage.enter hread
  have within := h.within hlt stage hread tracing
  have start : (Climb.start (s.enter part).search).Trails (s.setting tracing) (t.setting tracing)
      (s.enter part).reading.wordParts (Climb.start (s.enter part).search) :=
    .same ⟨⟨entered.coherent.tables, entered.allBuilt.1⟩, entered.allBuilt.2, Or.inl equal⟩
  have seeded := Climb.seed_trails within start (standsIn_enter stage.coherent hread)
  obtain ⟨trails, passes⟩ := Climb.settle_trails within seeded
  rw [searched, searched, h.enter_search hlt]
  exact Prod.ext (trails.eq equal) (passes equal)

end Entering

/-- A step that reads a part tells the same in both sessions. -/
theorem stepTracing (stage : Stage s) {part : WordPart} (hread : s.read.1 = some part)
    (hlt : part.entry < s.graph.entries.size) (tracing : Bool) :
    (t.stepTracing tracing).1 = (s.stepTracing tracing).1 ∧
      (s.stepTracing tracing).2.Begins (t.stepTracing tracing).2 := by
  have advance_eq : t.read = (some part, s.read.2.withTokens t.reading.tokens) := by
    rw [read_eq_advance, h.reading_eq]
    exact Reading.advance_withTokens h.graph h.read_lt h.tokens (Prod.ext hread rfl)
  have hread' : t.read.1 = some part := congrArg Prod.fst advance_eq
  have reading_eq : t.read.2 = s.read.2.withTokens t.reading.tokens :=
    congrArg Prod.snd advance_eq
  have tokens_eq : s.read.2.tokens = s.reading.tokens := s.reading.tokens_advance s.graph
  have searched := h.searched_eq hlt stage hread tracing
  have told_eq : t.told tracing part = s.told tracing part := by
    rw [told, told, (h.activate hlt).2, h.licences_eq hlt, h.search_eq, searched, reading_eq]
    rfl
  rw [stepTracing_told hread, stepTracing_told hread', told_eq]
  refine ⟨rfl, h.graph, h.enclosed, h.options_eq, ?_, ?_, ?_, ?_, ?_, ?_⟩
  · rw [reading_entered, reading_entered]
    change s.read.2.tokens <+: t.read.2.tokens
    rw [tokens_eq, reading_eq]
    exact h.tokens
  · rw [reading_entered, reading_entered]
    change t.read.2 = s.read.2.withTokens t.read.2.tokens
    rw [reading_eq]
    rfl
  · rw [reading_entered, graph_entered]
    exact h.entered_lt hlt stage hread
  · rw [graph_entered]
    exact (h.activate hlt).1
  · rw [search_entered, search_entered, searched]
  · rw [metrics_entered, metrics_entered, h.metrics_eq]

/-- As long as the shorter sentence has parts to be read both sessions do the same. -/
theorem stepped (reachable : Reachable s) {n : Nat} (paced : ∀ k ≤ n, s.Paced k)
    (hn : n ≤ s.signalCount) :
    t.results n = s.results n ∧ (s.stepped n).Begins (t.stepped n) := by
  induction n with
  | zero => exact ⟨rfl, h⟩
  | succ n ih =>
    obtain ⟨results_eq, begins⟩ := ih (fun k hk => paced k (Nat.le_succ_of_le hk))
      (Nat.le_of_succ_le hn)
    obtain ⟨part, next, advances⟩ := (paced n (Nat.le_succ n)).advance hn
    have hread : (s.stepped n).read.1 = some part := congrArg Prod.fst advances.read_eq
    obtain ⟨result_eq, begins'⟩ :=
      begins.stepTracing (reachable.stepped n).stage hread advances.entry_lt false
    refine ⟨?_, begins'⟩
    rw [results, results, results_eq]
    exact congrArg (fun result => s.results n ++ [result]) result_eq

end Begins

/-- The first steps of a longer sentence show what those of a shorter one do. -/
structure Prefigures (short long : Session) (n : Nat) : Prop where
  results_eq : long.results n = short.results n
  search_eq : (long.stepped n).search = (short.stepped n).search
  mergeEdges_eq : (long.stepped n).mergeEdges = (short.stepped n).mergeEdges
  adjunctionEdges_eq : (long.stepped n).adjunctionEdges = (short.stepped n).adjunctionEdges
  activeCategories_eq : (long.stepped n).activeCategories = (short.stepped n).activeCategories
  metrics_eq : (long.stepped n).metrics = (short.stepped n).metrics

lemma Begins.prefigures {s t : Session} {n : Nat} (results_eq : t.results n = s.results n)
    (h : (s.stepped n).Begins (t.stepped n)) : s.Prefigures t n where
  results_eq := results_eq
  search_eq := h.search_eq
  mergeEdges_eq := congrArg (SearchState.edges · PartState.argEdges) h.search_eq
  adjunctionEdges_eq := congrArg (SearchState.edges · PartState.adjunctions) h.search_eq
  activeCategories_eq := h.licensing.activeCategories_eq h.graph
  metrics_eq := h.metrics_eq

/-! ### Sentences of a lexicon -/

/-- Words of a lexicon have a graph, which begins with that of the first words, and sessions. -/
lemma exists_begins (lexicon : Lexicon) {tokens more : List String} (options : Options)
    (nonempty : tokens ≠ [])
    (known : ∀ token ∈ tokens ++ more, ∃ entry ∈ lexicon.entries, entry.word = token) :
    ∃ entries further short long,
      Graph.forSentence lexicon tokens = .ok (.ofEntries entries) ∧
      Graph.forSentence lexicon (tokens ++ more) = .ok (.ofEntries (entries ++ further)) ∧
      Session.start (.ofEntries entries) tokens options = .ok short ∧
      Session.start (.ofEntries (entries ++ further)) (tokens ++ more) options = .ok long ∧
      short.Begins long := by
  obtain ⟨entries, chosen, hsubset, hcover⟩ := @Graph.chooseEntries_ok lexicon []
    tokens fun token h => known token (List.mem_append_left _ h)
  rw [List.nil_append] at chosen hcover
  obtain ⟨further, chosen', hsubset', hcover'⟩ := @Graph.chooseEntries_ok lexicon entries
    more fun token h => known token (List.mem_append_right _ h)
  have found : ∀ token ∈ tokens, ∃ id, (Graph.ofEntries entries).lookup token = some id :=
    fun token htoken => Graph.lookup_of_word hsubset (hcover token htoken)
  have found' : ∀ token ∈ more,
      ∃ id, (Graph.ofEntries (entries ++ further)).lookup token = some id := fun token htoken =>
    Graph.lookup_of_word (List.append_subset.2 ⟨hsubset, hsubset'⟩) (hcover' token htoken)
  have begins := Graph.begins_append entries further
  obtain ⟨ids, later, hids, hlater⟩ := lookupAll_begins begins found found'
  refine ⟨entries, further, _, _, ?_, ?_, start_of_lookupAll nonempty hids options,
    start_of_lookupAll (List.append_ne_nil_of_left_ne_nil nonempty _) hlater options, begins,
    Graph.enclosed_ofEntries entries, rfl, List.prefix_append _ _, rfl, ?_,
    Licensing.embeds_start begins, rfl, rfl⟩
  · rw [Graph.forSentence, chosen]
    rfl
  · rw [Graph.forSentence, Graph.chooseEntries_append, chosen]
    exact congrArg (Except.map Graph.ofEntries) chosen'
  · exact fun part hpart => absurd hpart (Array.not_mem_empty part)

/-- A sentence of words of a lexicon and a longer one that begins with it, each with its own graph:
as many steps as the shorter one has word parts lead to its end. In the session of the longer one they
tell the same and lead to the same routes, edges and categories, and every step writes behind what it
finds. -/
theorem prefix_stable (lexicon : Lexicon) (tokens more : List String) (options : Options)
    (nonempty : tokens ≠ [])
    (known : ∀ token ∈ tokens ++ more, ∃ entry ∈ lexicon.entries, entry.word = token) :
    ∃ graph longer short long,
      Graph.forSentence lexicon tokens = .ok graph ∧
      Graph.forSentence lexicon (tokens ++ more) = .ok longer ∧
      Session.start graph tokens options = .ok short ∧
      Session.start longer (tokens ++ more) options = .ok long ∧
      (∃ told, short.run = (.ok told, short.stepped short.signalCount) ∧
        told.map .ok = long.results short.signalCount) ∧
      (short.stepped short.signalCount).isComplete = true ∧
      short.Prefigures long short.signalCount ∧
      ∀ n tracing, (long.stepped n).search.Continues
        ((long.stepped n).stepTracing tracing).2.search := by
  obtain ⟨entries, further, short, long, hgraph, hlonger, started, started', begins⟩ :=
    exists_begins lexicon options nonempty known
  have paced : ∀ k ≤ short.signalCount, short.Paced k := fun k hk => paced started hk
  obtain ⟨results_eq, stepped⟩ := begins.stepped (.start started) paced le_rfl
  obtain ⟨told, hrun, htold⟩ := run_eq started
  refine ⟨_, _, short, long, hgraph, hlonger, started, started', ⟨told, hrun, ?_⟩, ?_,
    stepped.prefigures results_eq, fun n tracing => ?_⟩
  · rw [htold, results_eq]
  · exact ((paced _ le_rfl).isComplete_iff (signalCount_pos started)).2 rfl
  · exact ((Reachable.start started').stepped n).stage.continues tracing

/-- The entries of the sample as a lexicon. -/
def sampleLexicon : Lexicon := ⟨sampleEntries, by decide +kernel⟩

/-- Before its adjunct is read the head with its noun is analysed as if there were none. -/
theorem sample_prefix_stable : ∃ short long : Session,
    Session.start (.ofEntries (sampleEntries.take 2)) ["a", "h"] Options.standard = .ok short ∧
      Session.start (.ofEntries sampleEntries) ["a", "h", "d"] Options.standard = .ok long ∧
      short.Prefigures long 2 := by
  obtain ⟨graph, longer, short, long, hgraph, hlonger, hshort, hlong, -, -, prefigures, -⟩ :=
    prefix_stable sampleLexicon ["a", "h"] ["d"] Options.standard (by decide) (by decide +kernel)
  have chosen : Graph.chooseEntries sampleLexicon [] ["a", "h"] = .ok (sampleEntries.take 2) := by
    decide +kernel
  have chosen' : Graph.chooseEntries sampleLexicon [] (["a", "h"] ++ ["d"]) = .ok sampleEntries := by
    decide +kernel
  rw [Graph.forSentence, chosen] at hgraph
  rw [Graph.forSentence, chosen'] at hlonger
  cases hgraph
  cases hlonger
  have counted : short.signalCount = 2 := by
    obtain ⟨ids, hids, rfl⟩ := start_eq_ok hshort
    have found : lookupAll (.ofEntries (sampleEntries.take 2)) ["a", "h"] = .ok [0, 1] := by
      decide +kernel
    cases found.symm.trans hids
    decide +kernel
  exact ⟨short, long, hshort, hlong, counted ▸ prefigures⟩

end Session

end MergeGrammar
