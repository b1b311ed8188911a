import MergeGrammar.Proofs.Appearance
import MergeGrammar.Proofs.MirroredSteps
import MergeGrammar.Proofs.RouteRoom

/-!
# Filtering the lexicon

A sentence is analysed in the graph of its own words or in that of the whole lexicon. The numbers of
entries and features and the order of edges and routes differ between the two, but the steps report the
same, and without movers and dropped routes the same derivations are found.
-/

namespace MergeGrammar

namespace Session

/-- The number in the graph of another session of the entry with the same word and the same place in
it. -/
abbrev rename (s t : Session) : EntryId → EntryId := s.graph.counterpart t.graph

lemma Spelled.clashes_iff {entries : List Entry} {session : Session} (h : session.Spelled entries)
    (written : Written entries) {host settled newcomer : EntryId} :
    (session.graph.entry settled).clashes session.graph
        ((session.graph.entry host).adjunctNames session.graph)
        (session.graph.entry newcomer) = true ↔
      Part.Clashes (session.graph.entry host).part (session.graph.entry settled).part
        (session.graph.entry newcomer).part := by
  rw [h.graph_eq]
  exact Graph.clashes_iff written

namespace Mirrors

variable {entries others : List Entry} {s t : Session} (h : s.Mirrors entries others t)
  (words : (others.map Entry.word).Nodup)
include h words

lemma renumber_eq {part part' : WordPart} (twins : part.Twins s.graph t.graph part') :
    part.renumber (s.rename t) = part' := by
  have entry_eq : s.rename t part.entry = part'.entry := by
    have entry_twins := twins.entry
    rw [rename]
    rw [h.spelled'.graph_eq] at entry_twins ⊢
    exact entry_twins.counterpart_eq words
  rw [WordPart.renumber, entry_eq, ← twins.signal_eq, ← twins.wordIndex_eq]

/-- A word part that has been read has its counterpart at the same signal. -/
lemma counterpart {part : WordPart} (standing : part.StandsIn s.reading.wordParts) :
    part.Twins s.graph t.graph (part.renumber (s.rename t)) ∧
      (part.renumber (s.rename t)).StandsIn t.reading.wordParts := by
  obtain ⟨hpos, hget⟩ := standing
  have hlt := (Array.getElem?_eq_some_iff.1 hget).1
  have hget' := Array.getElem?_eq_getElem (hlt.trans_eq h.reading.size_eq.symm)
  have twins := h.reading.parts _ _ _ hget hget'
  have renumbered := h.renumber_eq words twins
  rw [renumbered]
  refine ⟨twins, twins.signal_eq.symm ▸ hpos, ?_⟩
  rw [twins.signal_eq]
  exact hget'

lemma alike {part : WordPart} (standing : part.StandsIn s.reading.wordParts) :
    part.Alike (s.rename t) s.graph t.graph :=
  have entry := (h.counterpart words standing).1.entry
  ⟨entry.name_eq, entry.isFree_eq⟩

lemma carries (written : Written entries) (written' : Written others) :
    s.premises.Carries (s.rename t) t.premises where
  checkAgreement_eq := congrArg Options.checkAgreement h.options_eq
  forth part standing := (h.counterpart words standing).2
  back part standing := by
    obtain ⟨hpos, hget'⟩ := standing
    have hlt := (Array.getElem?_eq_some_iff.1 hget').1
    have hget := Array.getElem?_eq_getElem (hlt.trans_eq h.reading.size_eq)
    have twins := h.reading.parts _ _ _ hget hget'
    refine ⟨_, ⟨twins.signal_eq ▸ hpos, ?_⟩, h.renumber_eq words twins⟩
    rw [← twins.signal_eq]
    exact hget
  first_eq part standing := (h.counterpart words standing).1.entry.isFirstPart_eq
  clashes_eq host settled newcomer hhost hsettled hnewcomer := by
    have part_eq : ∀ part : WordPart, part.StandsIn s.reading.wordParts →
        (t.graph.entry (s.rename t part.entry)).part = (s.graph.entry part.entry).part :=
      fun part standing => (h.counterpart words standing).1.entry.part_eq
    rw [Bool.eq_iff_iff]
    refine (h.spelled'.clashes_iff written').trans (Iff.trans ?_ (h.spelled.clashes_iff written).symm)
    rw [part_eq host hhost, part_eq settled hsettled, part_eq newcomer hnewcomer]
  edge_iff _ _ _ := h.edges.mem_edges_iff

omit words in
lemma fixed_iff : Fixed t.graph t.reading.wordParts ↔ Fixed s.graph s.reading.wordParts := by
  constructor
  · intro fixed part hpart
    obtain ⟨part', hpart', twins⟩ := h.reading.exists_mem hpart
    exact twins.entry.isFree_eq ▸ fixed part' hpart'
  · intro fixed part' hpart'
    obtain ⟨part, hpart, twins⟩ := h.reading.symm.exists_mem hpart'
    exact twins.entry.isFree_eq ▸ fixed part hpart

/-! ### Counterparts of derivations -/

variable (written : Written entries) (written' : Written others)
include written written'

/-- What the one session can generate is stored in the other one if that has dropped nothing. -/
lemma housed (saturated' : t.Saturated) (fixed' : Fixed t.graph t.reading.wordParts) :
    SearchState.HousedIn s.premises t.search fun d e => d.renumber (s.rename t) = e where
  stored d derived := by
    have derived' := (h.carries words written written').derives_iff.2 ⟨d, derived, rfl⟩
    have stage' := saturated'.stage
    obtain ⟨id, hid, heq⟩ := stage'.allBuilt.1.exists_tree fixed' stage'.coherent.tables
      stage'.keyed saturated'.closed saturated'.uncapped derived'
    exact ⟨id, hid, heq.symm⟩
  unique d d' e derived derived' heq heq' :=
    Derivation.eq_of_renumber derived.standsIn derived'.standsIn (heq.trans heq'.symm)
  signals_eq d e heq := heq ▸ d.signals_renumber
  root_eq d e heq := by
    rw [← heq, Derivation.root_renumber]
    rfl

lemma housed_back (saturated : s.Saturated) (fixed : Fixed s.graph s.reading.wordParts) :
    SearchState.HousedIn t.premises s.search fun e d => d.renumber (s.rename t) = e where
  stored e derived := by
    obtain ⟨d, derived, heq⟩ := (h.carries words written written').derives_iff.1 derived
    have stage := saturated.stage
    obtain ⟨id, hid, rfl⟩ := stage.allBuilt.1.exists_tree fixed stage.coherent.tables stage.keyed
      saturated.closed saturated.uncapped derived
    exact ⟨id, hid, heq⟩
  unique e e' d _ _ heq heq' := heq.symm.trans heq'
  signals_eq e d heq := heq ▸ d.signals_renumber.symm
  root_eq e d heq := by
    rw [← heq, Derivation.root_renumber]
    rfl

/-- Without drops both have stored the same derivations. -/
lemma mem_derivations_iff (saturated : s.Saturated) (saturated' : t.Saturated)
    (fixed : Fixed s.graph s.reading.wordParts) {e : Derivation} :
    e ∈ t.derivations ↔ ∃ d ∈ s.derivations, d.renumber (s.rename t) = e := by
  rw [saturated'.mem_derivations_iff (h.fixed_iff.2 fixed),
    (h.carries words written written').derives_iff]
  refine exists_congr fun d => and_congr_left fun _ => ?_
  rw [saturated.mem_derivations_iff fixed]

end Mirrors

/-! ### Drops -/

lemma Reachable.fixed_of_le {s : Session} (h : Reachable s) {m n : Nat} (hle : m ≤ n)
    (fixed : Fixed (s.stepped n).graph (s.stepped n).reading.wordParts) :
    Fixed (s.stepped m).graph (s.stepped m).reading.wordParts := by
  intro part hpart
  rw [graph_stepped] at fixed ⊢
  exact fixed part (mem_wordParts_stepped h hle hpart)

lemma Reachable.saturated {s : Session} (h : Reachable s) (uncapped : s.capped = 0) : s.Saturated :=
  ⟨h.stage, h.closed, uncapped⟩

/-- If one session drops nothing, the other one does not either. -/
lemma uncapped_of_housed {s t : Session} (reachable : Reachable s) (reachable' : Reachable t)
    (options_eq : t.options = s.options) (uncapped : s.capped = 0)
    {Stands : Nat → Derivation → Derivation → Prop}
    (housed : ∀ n, (t.stepped n).Saturated →
      Fixed (t.stepped n).graph (t.stepped n).reading.wordParts →
      SearchState.HousedIn (s.stepped n).premises (t.stepped n).search (Stands n))
    (n : Nat) (fixed : Fixed (s.stepped n).graph (s.stepped n).reading.wordParts)
    (fixed' : Fixed (t.stepped n).graph (t.stepped n).reading.wordParts)
    (uncapped' : (t.stepped n).capped = 0) : (s.stepped n).capped = 0 := by
  induction n with
  | zero => exact uncapped
  | succ n ih =>
    have stage := (reachable.stepped n).stage
    have stage' := (reachable'.stepped n).stage
    have before : (t.stepped n).capped = 0 :=
      Nat.le_zero.1 ((stage'.capped_le false).trans_eq uncapped')
    have uncapped_n := ih (reachable.fixed_of_le (Nat.le_succ n) fixed)
      (reachable'.fixed_of_le (Nat.le_succ n) fixed') before
    have after := reachable'.stepped (n + 1)
    have housed_next := housed (n + 1) (after.saturated uncapped') fixed'
    refine stage.uncapped_stepTracing uncapped_n after.stage ?_ fixed' ?_ housed_next
    · rw [options_stepped, options_stepped, options_eq]
    · rw [stepped_succ, graph_stepTracing] at fixed
      exact fixed

lemma Saturated.standsIn {session : Session} (h : session.Saturated)
    (fixed : Fixed session.graph session.reading.wordParts) {d : Derivation}
    (hd : d ∈ session.derivations) : d.StandsIn session.reading.wordParts :=
  ((h.mem_derivations_iff fixed).1 hd).standsIn

/-! ### Complete routes -/

/-- What is shown of a route. -/
structure Showing where
  labelTree : Bracketing
  signalTree : Bracketing
  arrows : String
  cost : Float
  size : Nat
  weight : Nat

def showing (session : Session) (id : RouteId) : Showing :=
  let d := session.derivations.getD id default
  let route := session.search.arena.route id
  ⟨d.labelTree session.graph, d.signalTree session.graph, d.arrows session.graph, d.cost, route.size,
    route.weight⟩

/-- What is shown of a route, read off its derivation. -/
def showingOf (graph : Graph) (d : Derivation) : Showing :=
  ⟨d.labelTree graph, d.signalTree graph, d.arrows graph, d.cost, d.signals.size,
    d.signals.size - 1⟩

lemma showingOf_renumber {rename : EntryId → EntryId} {graph other : Graph} {d : Derivation}
    (alike : d.Alike rename graph other) :
    showingOf other (d.renumber rename) = showingOf graph d := by
  rw [showingOf, showingOf, Derivation.labelTree_renumber alike, Derivation.signalTree_renumber alike,
    Derivation.arrows_renumber alike, Derivation.cost, Derivation.cost, Derivation.costOn_renumber,
    Derivation.signals_renumber]

section Stage

variable {session : Session} (h : Stage session)
include h

lemma Stage.size_tree {id : RouteId} (hid : id < session.search.arena.size) :
    (session.search.tree id).signals.size = (session.search.arena.route id).size := by
  have signals_eq : (session.search.tree id).signals = (session.search.arena.route id).signals :=
    SignalSet.ext fun _ => h.allBuilt.1.mem_signals_tree hid
  rw [signals_eq]
  rfl

lemma Stage.showing_eq {id : RouteId} (hid : id < session.search.arena.size) :
    session.showing id = showingOf session.graph (session.search.tree id) := by
  have found : session.derivations.getD id default = session.search.tree id := by
    rw [Array.getD_eq_getD_getElem?, h.getElem?_iff.2 ⟨hid, rfl⟩]
    rfl
  have weight_eq := (h.allBuilt.1.covers hid).size
  rw [showing, showingOf, found, h.size_tree hid, weight_eq, Nat.add_sub_cancel]

/-- Without movers a route is complete if it has as many signals as have been read. -/
lemma Stage.mem_completeRoutes_iff (fixed : Fixed session.graph session.reading.wordParts)
    {id : RouteId} : id ∈ session.completeRoutes ↔ id < session.search.arena.size ∧
      (session.search.tree id).signals.size = session.consumed := by
  rw [completeRoutes, List.mem_filter, List.mem_range]
  refine and_congr_right fun hid => ?_
  have movers := (h.allBuilt.1.contiguous fixed hid).movers
  rw [covers, movers, h.size_tree hid, Bool.and_eq_true_iff, beq_iff_eq]
  exact and_iff_left rfl

lemma Stage.nodup_trees :
    (session.completeRoutes.map session.search.tree).Nodup := by
  refine List.Nodup.map_on (fun id hid other hother heq => ?_) (List.nodup_range.filter _)
  exact h.allBuilt.1.tree_injective h.keyed (List.mem_range.1 (List.mem_filter.1 hid).1)
    (List.mem_range.1 (List.mem_filter.1 hother).1) heq

lemma Stage.mem_trees_iff (fixed : Fixed session.graph session.reading.wordParts) {d : Derivation} :
    d ∈ session.completeRoutes.map session.search.tree ↔
      d ∈ session.derivations ∧ d.signals.size = session.consumed := by
  rw [List.mem_map, h.mem_derivations]
  constructor
  · rintro ⟨id, hid, rfl⟩
    obtain ⟨hlt, hsize⟩ := (h.mem_completeRoutes_iff fixed).1 hid
    exact ⟨⟨id, hlt, rfl⟩, hsize⟩
  · rintro ⟨⟨id, hlt, rfl⟩, hsize⟩
    exact ⟨id, (h.mem_completeRoutes_iff fixed).2 ⟨hlt, hsize⟩, rfl⟩

lemma Stage.showings_eq : session.completeRoutes.map session.showing =
    (session.completeRoutes.map session.search.tree).map (showingOf session.graph) := by
  rw [List.map_map]
  refine List.map_congr_left fun id hid => ?_
  exact h.showing_eq (List.mem_range.1 (List.mem_filter.1 hid).1)

end Stage

/-- Two searches have found the same derivations, and their complete routes show the same. -/
structure SameParses (rename : EntryId → EntryId) (s t : Session) : Prop where
  derivations : ∀ e, e ∈ t.derivations ↔ ∃ d ∈ s.derivations, d.renumber rename = e
  complete : (s.completeRoutes.map s.showing).Perm (t.completeRoutes.map t.showing)

section Complete

variable {entries others : List Entry} {s t : Session} (h : s.Mirrors entries others t)
  (words : (others.map Entry.word).Nodup) (written : Written entries) (written' : Written others)
  (saturated : s.Saturated) (saturated' : t.Saturated) (fixed : Fixed s.graph s.reading.wordParts)
include h words written written' saturated saturated' fixed

/-- The derivations of the complete routes are the same, in whatever order. -/
lemma Mirrors.perm_trees :
    ((s.completeRoutes.map s.search.tree).map (Derivation.renumber (s.rename t))).Perm
      (t.completeRoutes.map t.search.tree) := by
  have stage := saturated.stage
  have stage' := saturated'.stage
  have consumed_eq : t.consumed = s.consumed := h.reading.size_eq
  have standsIn : ∀ d ∈ s.completeRoutes.map s.search.tree, d.StandsIn s.reading.wordParts :=
    fun d hd => saturated.standsIn fixed ((stage.mem_trees_iff fixed).1 hd).1
  have nodup : ((s.completeRoutes.map s.search.tree).map
      (Derivation.renumber (s.rename t))).Nodup :=
    stage.nodup_trees.map_on fun d hd e he heq =>
      Derivation.eq_of_renumber (standsIn d hd) (standsIn e he) heq
  refine (List.perm_ext_iff_of_nodup nodup stage'.nodup_trees).2 fun e => ?_
  rw [stage'.mem_trees_iff (h.fixed_iff.2 fixed),
    h.mem_derivations_iff words written written' saturated saturated' fixed, consumed_eq,
    List.mem_map]
  constructor
  · rintro ⟨d, hd, rfl⟩
    obtain ⟨hstored, hsize⟩ := (stage.mem_trees_iff fixed).1 hd
    exact ⟨⟨d, hstored, rfl⟩, by rwa [Derivation.signals_renumber]⟩
  · rintro ⟨⟨d, hstored, rfl⟩, hsize⟩
    rw [Derivation.signals_renumber] at hsize
    exact ⟨d, (stage.mem_trees_iff fixed).2 ⟨hstored, hsize⟩, rfl⟩

lemma Mirrors.sameParses : SameParses (s.rename t) s t where
  derivations e := h.mem_derivations_iff words written written' saturated saturated' fixed
  complete := by
    have stage := saturated.stage
    have same : (s.completeRoutes.map s.search.tree).map
        (showingOf t.graph ∘ Derivation.renumber (s.rename t)) =
        s.completeRoutes.map s.showing := by
      rw [stage.showings_eq]
      refine List.map_congr_left fun d hd => showingOf_renumber fun part hpart => ?_
      have stored := ((stage.mem_trees_iff fixed).1 hd).1
      exact h.alike words (saturated.standsIn fixed stored part hpart)
    rw [← same, ← List.map_map, saturated'.stage.showings_eq]
    exact (h.perm_trees words written written' saturated saturated' fixed).map _

end Complete

/-! ### Steps -/

/-- Two steps have failed alike or report the same word part, but for the number of its entry, and the
same new edges. -/
inductive StepsConcur (rename : EntryId → EntryId) : Except SessionError StepResult →
    Except SessionError StepResult → Prop
  | failed (cause : SessionError) : StepsConcur rename (.error cause) (.error cause)
  | passed {result result' : StepResult} (part_eq : result'.part = result.part.renumber rename)
    (mem_merges_iff : ∀ edge, edge ∈ result'.merges ↔ edge ∈ result.merges)
    (mem_adjunctions_iff : ∀ edge, edge ∈ result'.adjunctions ↔ edge ∈ result.adjunctions) :
    StepsConcur rename (.ok result) (.ok result')

lemma Mirrors.concur {entries others : List Entry} {s t : Session} (h : s.Mirrors entries others t)
    (words : (others.map Entry.word).Nodup) (written : Written entries) (written' : Written others)
    (stage : Stage s) (stage' : Stage t) (tracing : Bool) :
    StepsConcur (s.rename t) (s.stepTracing tracing).1 (t.stepTracing tracing).1 := by
  have mirror := (h.stepTracing written written' stage stage' tracing).1
  generalize (s.stepTracing tracing).1 = told at mirror ⊢
  generalize (t.stepTracing tracing).1 = told' at mirror ⊢
  cases mirror with
  | failed cause => exact .failed cause
  | @passed result result' part mem_edges_iff =>
    have same : ∀ kind edge, edge ∈ result'.newEdges kind ↔ edge ∈ result.newEdges kind :=
      fun kind edge =>
        StepResult.mem_newEdges.trans ((mem_edges_iff _).trans StepResult.mem_newEdges.symm)
    exact .passed (h.renumber_eq words part).symm (same .merge) (same .pairMerge)

/-! ### Sentences of a lexicon -/

/-- The words of a sentence are found at the same parts in both graphs. -/
lemma lookupAll_twins {entries others : List Entry}
    (agree : ∀ entry ∈ entries, ∀ other ∈ others, entry.word = other.word → entry = other)
    {tokens : List String}
    (found : ∀ token ∈ tokens, ∃ id, (Graph.ofEntries entries).lookup token = some id)
    (found' : ∀ token ∈ tokens, ∃ id, (Graph.ofEntries others).lookup token = some id) :
    ∃ ids ids', lookupAll (.ofEntries entries) tokens = .ok ids ∧
      lookupAll (.ofEntries others) tokens = .ok ids' ∧
      List.Forall₂ ((Graph.ofEntries entries).Twins (.ofEntries others)) ids ids' := by
  induction tokens with
  | nil => exact ⟨[], [], rfl, rfl, .nil⟩
  | cons token tokens ih =>
    obtain ⟨id, hid⟩ := found token List.mem_cons_self
    obtain ⟨id', hid'⟩ := found' token List.mem_cons_self
    obtain ⟨ids, ids', hids, hids', twins⟩ := ih (fun t ht => found t (List.mem_cons_of_mem _ ht))
      fun t ht => found' t (List.mem_cons_of_mem _ ht)
    refine ⟨id :: ids, id' :: ids', ?_, ?_, .cons (Graph.lookup_twins agree hid hid') twins⟩
    · rw [lookupAll, hid]
      dsimp only
      rw [hids]
      rfl
    · rw [lookupAll, hid']
      dsimp only
      rw [hids']
      rfl

lemma mirrors_ofEntries {entries others : List Entry} (options : Options) {ids ids' : List EntryId}
    (twins : List.Forall₂ ((Graph.ofEntries entries).Twins (.ofEntries others)) ids ids') :
    (ofEntries (.ofEntries entries) options ids).Mirrors entries others
      (ofEntries (.ofEntries others) options ids') where
  spelled := ⟨rfl, rfl⟩
  spelled' := ⟨rfl, rfl⟩
  options_eq := rfl
  reading := .start twins
  edges := .of_same (.refl _)

/-- A sentence of words of a lexicon has sessions in the graph of its words and in that of the whole
lexicon. -/
lemma exists_mirrors (lexicon : Lexicon) {tokens : List String} (options : Options)
    (nonempty : tokens ≠ [])
    (known : ∀ token ∈ tokens, ∃ entry ∈ lexicon.entries, entry.word = token) :
    ∃ entries small large,
      Graph.forSentence lexicon tokens = .ok (.ofEntries entries) ∧
      Session.start (.ofEntries entries) tokens options = .ok small ∧
      Session.start (.build lexicon) tokens options = .ok large ∧
      entries ⊆ lexicon.entries ∧ small.Mirrors entries lexicon.entries large := by
  obtain ⟨entries, chosen, subset, cover⟩ := @Graph.chooseEntries_ok lexicon [] tokens known
  rw [List.nil_append] at chosen cover
  have agree : ∀ entry ∈ entries, ∀ other ∈ lexicon.entries, entry.word = other.word →
      entry = other := fun entry hentry other hother heq =>
    List.inj_on_of_nodup_map lexicon.nodup_words (subset hentry) hother heq
  obtain ⟨ids, ids', hids, hids', twins⟩ := lookupAll_twins agree
    (fun token htoken => Graph.lookup_of_word subset (cover token htoken))
    fun token htoken => Graph.lookup_of_word (List.Subset.refl _) (known token htoken)
  refine ⟨entries, _, _, ?_, start_of_lookupAll nonempty hids options,
    start_of_lookupAll nonempty hids' options, subset, mirrors_ofEntries options twins⟩
  rw [Graph.forSentence, chosen]
  rfl

/-- The session of a sentence in the graph of its own words and the one in the graph of the whole
lexicon. Every entry of the smaller graph has the one with the same word and the same place in it as its
counterpart in the larger one. At every step both report the same word part and the same new edges. As
long as no word part that has been read is free to move, either both have dropped a route or neither
has, and if neither has, they have found the same derivations and show the same complete routes. -/
theorem filtering_preserves {text : String} {lexicon : Lexicon}
    (parsed : Lexicon.parse text = .ok lexicon) {tokens : List String} (nonempty : tokens ≠ [])
    (known : ∀ token ∈ tokens, ∃ entry ∈ lexicon.entries, entry.word = token) (options : Options) :
    ∃ graph small large,
      Graph.forSentence lexicon tokens = .ok graph ∧
      Session.start graph tokens options = .ok small ∧
      Session.start (.build lexicon) tokens options = .ok large ∧
      let rename := graph.counterpart (.build lexicon)
      (∀ id < graph.entries.size, rename id < (Graph.build lexicon).entries.size ∧
        ((Graph.build lexicon).entry (rename id)).word = (graph.entry id).word ∧
        ((Graph.build lexicon).entry (rename id)).index = (graph.entry id).index) ∧
      (∀ n tracing, StepsConcur rename ((small.stepped n).stepTracing tracing).1
        ((large.stepped n).stepTracing tracing).1) ∧
      ∀ n, Fixed graph (small.stepped n).reading.wordParts →
        ((small.stepped n).capped = 0 ↔ (large.stepped n).capped = 0) ∧
        ((small.stepped n).capped = 0 → SameParses rename (small.stepped n) (large.stepped n)) := by
  obtain ⟨entries, small, large, hgraph, started, started', subset, mirrors⟩ :=
    exists_mirrors lexicon options nonempty known
  have words : (lexicon.entries.map Entry.word).Nodup :=
    (firstFault_eq_none.1 lexicon.faultless).2.1
  have written' := Lexicon.written_of_parse parsed
  have written : Written entries := fun entry hentry => written' entry (subset hentry)
  have reachable : Reachable small := .start started
  have reachable' : Reachable large := .start started'
  have small_graph : small.graph = .ofEntries entries := mirrors.spelled.graph_eq
  have large_graph : large.graph = .build lexicon := mirrors.spelled'.graph_eq
  have stepped := fun n => mirrors.stepped written written' reachable reachable' n
  have rename_eq : ∀ n, (small.stepped n).rename (large.stepped n) =
      (Graph.ofEntries entries).counterpart (.build lexicon) := by
    intro n
    rw [rename, graph_stepped, graph_stepped, small_graph, large_graph]
  have capped_start : ∀ {graph : Graph} {session : Session},
      Session.start graph tokens options = .ok session → session.capped = 0 := by
    intro graph session hstart
    obtain ⟨ids, -, rfl⟩ := start_eq_ok hstart
    rfl
  refine ⟨.ofEntries entries, small, large, hgraph, started, started', fun id hid => ?_,
    fun n tracing => ?_, fun n fixed => ?_⟩
  · have twins := Graph.counterpart_twins subset words hid
    exact ⟨twins.symm.lt, twins.word_eq, twins.index_eq⟩
  · rw [← rename_eq n]
    exact (stepped n).concur words written written' (reachable.stepped n).stage
      (reachable'.stepped n).stage tracing
  · rw [← small_graph, ← graph_stepped small n] at fixed
    have fixed' := (stepped n).fixed_iff.2 fixed
    have uncapped_iff : (small.stepped n).capped = 0 ↔ (large.stepped n).capped = 0 := by
      constructor
      · exact uncapped_of_housed reachable' reachable mirrors.options_eq.symm (capped_start started')
          (fun k saturated fixed => (stepped k).housed_back words written written' saturated fixed)
          n fixed' fixed
      · exact uncapped_of_housed reachable reachable' mirrors.options_eq (capped_start started)
          (fun k saturated fixed => (stepped k).housed words written written' saturated fixed)
          n fixed fixed'
    refine ⟨uncapped_iff, fun uncapped => ?_⟩
    rw [← rename_eq n]
    exact (stepped n).sameParses words written written' ((reachable.stepped n).saturated uncapped)
      ((reachable'.stepped n).saturated (uncapped_iff.1 uncapped)) fixed

/-- In the graph of the whole lexicon a noun and the word after it have one complete route, as in the
graph of these two words, which has them in the other order. -/
theorem echo_filtered : ∃ small large : Session,
    Session.start (.ofEntries (Licensing.echoEntries.take 2).reverse) ["n", "b"]
      { Options.standard with maxRoutes := 10 } = .ok small ∧
    Session.start (.build Licensing.echoLexicon) ["n", "b"]
      { Options.standard with maxRoutes := 10 } = .ok large ∧
    (large.stepped 2).capped = 0 ∧ (large.stepped 2).completeRoutes.length = 1 := by
  obtain ⟨graph, small, large, hgraph, started, started', -, -, same⟩ :=
    @filtering_preserves _ _ Licensing.echo_parsed ["n", "b"] (by decide) (by decide +kernel)
      { Options.standard with maxRoutes := 10 }
  have chosen : Graph.chooseEntries Licensing.echoLexicon [] ["n", "b"] =
      .ok (Licensing.echoEntries.take 2).reverse := by
    decide +kernel
  rw [Graph.forSentence, chosen] at hgraph
  cases hgraph
  obtain ⟨ids, hids, heq⟩ := start_eq_ok started
  have found : lookupAll (.ofEntries (Licensing.echoEntries.take 2).reverse) ["n", "b"] =
      .ok [0, 1] := by
    decide +kernel
  cases found.symm.trans hids
  subst heq
  obtain ⟨uncapped_iff, parses⟩ := same 2 (by unfold Fixed; decide +kernel)
  have uncapped := uncapped_iff.1 (by decide +kernel)
  have complete := (parses (uncapped_iff.2 uncapped)).complete.length_eq
  rw [List.length_map, List.length_map] at complete
  exact ⟨_, large, started, started', uncapped, complete.symm.trans (by decide +kernel)⟩

end Session

end MergeGrammar
