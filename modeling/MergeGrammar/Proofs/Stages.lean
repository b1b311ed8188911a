import MergeGrammar.Proofs.ClimbMoves
import MergeGrammar.Proofs.LicenceSoundness

/-!
# Stages of a session

A session starts, steps and is reset. Seen more closely, it passes through stages: the next word
part is entered with its edges, and the search makes its moves one by one. What holds at the start
and passes from stage to stage holds of every session that can be reached.
-/

namespace MergeGrammar

/-- `next` is the first part of a word or the part after `part` of the same word. -/
def WordPart.Continues (graph : Graph) (part next : WordPart) : Prop :=
  (graph.entry next.entry).isFirstPart = true ∨
    (graph.entry part.entry).nextPart? = some next.entry ∧ next.wordIndex = part.wordIndex

/-- The tokens are first parts, and the word parts read so far are numbered in order and stand in
the order of their words. -/
structure Reading.Ordered (graph : Graph) (reading : Reading) : Prop where
  firsts : ∀ entry ∈ reading.tokens, (graph.entry entry).isFirstPart = true
  numbered : ∀ (i : Nat) (part : WordPart), reading.wordParts[i]? = some part → part.signal = i + 1
  continues : ∀ (i : Nat) (part next : WordPart), reading.wordParts[i]? = some part →
    reading.wordParts[i + 1]? = some next → part.Continues graph next

namespace Reading

variable {graph : Graph} {reading : Reading}

lemma start_ordered {tokens : List EntryId}
    (firsts : ∀ entry ∈ tokens, (graph.entry entry).isFirstPart = true) :
    (start tokens).Ordered graph where
  firsts := firsts
  numbered i part hpart := by simp [start] at hpart
  continues i part next hpart := by simp [start] at hpart

lemma Ordered.push (h : reading.Ordered graph) {next : Reading} {part : WordPart}
    (htokens : next.tokens = reading.tokens)
    (hparts : next.wordParts = reading.wordParts.push part)
    (hsignal : part.signal = reading.wordParts.size + 1)
    (hcontinues : ∀ last, reading.wordParts.back? = some last → last.Continues graph part) :
    next.Ordered graph where
  firsts := htokens ▸ h.firsts
  numbered i other hother := by
    rw [hparts, Array.getElem?_push] at hother
    split at hother
    · next hi =>
      cases hother
      rw [hi]
      exact hsignal
    · exact h.numbered i other hother
  continues i other after hother hafter := by
    rw [hparts, Array.getElem?_push] at hother hafter
    by_cases hi : i = reading.wordParts.size
    · rw [if_neg (by omega), Array.getElem?_eq_none (by omega)] at hafter
      cases hafter
    · rw [if_neg hi] at hother
      split at hafter
      · next hlast =>
        cases hafter
        refine hcontinues other ?_
        rw [Array.back?_eq_getElem?, ← hlast]
        exact hother
      · exact h.continues i other after hother hafter

lemma first_ordered (h : reading.Ordered graph) (hempty : reading.wordParts.isEmpty = true)
    {part : WordPart} (hread : reading.first.1 = some part) :
    reading.first.2.wordParts = reading.wordParts.push part ∧
      part.signal = reading.wordParts.size + 1 ∧ reading.first.2.Ordered graph := by
  have hnone : reading.wordParts = #[] := Array.isEmpty_iff.1 hempty
  cases htokens : reading.tokens with
  | nil => simp [first, htokens] at hread
  | cons entry tokens =>
    simp only [first, htokens, Option.some.injEq] at hread
    have hparts : reading.first.2.wordParts = reading.wordParts.push part := by
      simp [first, htokens, hnone, hread]
    have hsignal : part.signal = reading.wordParts.size + 1 := by simp [← hread, hnone]
    have hkept : reading.first.2.tokens = reading.tokens := by
      simp [first, htokens, reset, start]
    refine ⟨hparts, hsignal, h.push hkept hparts hsignal fun last hlast => ?_⟩
    simp [hnone] at hlast

lemma back?_of_current? {current : WordPart} (h : reading.current? = some current) :
    reading.wordParts.back? = some current := by
  rw [current?] at h
  split at h
  · cases h
  · exact h

lemma next_ordered (h : reading.Ordered graph) {part : WordPart}
    (hread : (reading.next graph).1 = some part) :
    (reading.next graph).2.wordParts = reading.wordParts.push part ∧
      part.signal = reading.wordParts.size + 1 ∧ (reading.next graph).2.Ordered graph := by
  rw [next] at hread ⊢
  split at hread
  · cases hread
  · next current hcurrent =>
    have hlast := back?_of_current? hcurrent
    have hsignal : current.signal + 1 = reading.wordParts.size + 1 := by
      rw [Array.back?_eq_getElem?] at hlast
      obtain ⟨hlt, -⟩ := Array.getElem?_eq_some_iff.1 hlast
      have hnumber := h.numbered _ _ hlast
      lia
    cases hpart : (graph.entry current.entry).nextPart? with
    | some entry =>
      simp only [hpart, Option.some.injEq] at hread
      subst hread
      refine ⟨rfl, hsignal, h.push rfl rfl hsignal fun last hback => ?_⟩
      rw [hlast] at hback
      cases hback
      exact Or.inr ⟨hpart, rfl⟩
    | none =>
      cases htoken : reading.tokens[reading.entered]? with
      | some entry =>
        simp only [hpart, htoken, Option.some.injEq] at hread
        subst hread
        exact ⟨rfl, hsignal, h.push rfl rfl hsignal fun _ _ =>
          Or.inl (h.firsts entry (List.mem_of_getElem? htoken))⟩
      | none => simp [hpart, htoken] at hread

lemma Ordered.of_eq (h : reading.Ordered graph) {next : Reading}
    (htokens : next.tokens = reading.tokens)
    (hparts : next.wordParts = reading.wordParts ∨ next.wordParts = #[]) : next.Ordered graph where
  firsts := htokens ▸ h.firsts
  numbered i part hpart := by
    rcases hparts with heq | heq
    · exact h.numbered i part (heq ▸ hpart)
    · simp [heq] at hpart
  continues i part after hpart hafter := by
    rcases hparts with heq | heq
    · exact h.continues i part after (heq ▸ hpart) (heq ▸ hafter)
    · simp [heq] at hpart

lemma first_stays (h : reading.Ordered graph) (hempty : reading.wordParts.isEmpty = true)
    (hread : reading.first.1 = none) :
    reading.first.2.wordParts = reading.wordParts ∧ reading.first.2.Ordered graph := by
  cases htokens : reading.tokens with
  | nil =>
    have hfirst : reading.first.2 = start reading.tokens := by
      simp [first, htokens, reset]
    rw [hfirst]
    exact ⟨(Array.isEmpty_iff.1 hempty).symm, h.of_eq rfl (Or.inr rfl)⟩
  | cons entry tokens => simp [first, htokens] at hread

lemma next_stays (h : reading.Ordered graph) (hread : (reading.next graph).1 = none) :
    (reading.next graph).2.wordParts = reading.wordParts ∧
      (reading.next graph).2.Ordered graph := by
  rw [next] at hread ⊢
  split at hread
  · exact ⟨rfl, h⟩
  · next current _ =>
    cases hpart : (graph.entry current.entry).nextPart? with
    | some entry => simp [hpart] at hread
    | none =>
      cases htoken : reading.tokens[reading.entered]? with
      | some entry => simp [hpart, htoken] at hread
      | none => exact ⟨rfl, h.of_eq rfl (Or.inl rfl)⟩

end Reading

namespace Session

def licences (session : Session) (part : WordPart) : List Licence :=
  (session.licensing.activate session.graph part).2.map Prod.snd

/-- Enters a word part that has just been read: it is activated, and the edges that come from it are
added. -/
def enter (session : Session) (part : WordPart) : Session :=
  { session with
    reading := session.read.2
    licensing := (session.licensing.activate session.graph part).1
    search := (session.search.openPart.joinAll (session.licences part)).1 }

lemma arena_enter (session : Session) (part : WordPart) :
    (session.enter part).search.arena = session.search.arena :=
  session.search.openPart.arena_joinAll _

/-- What a session passes through. -/
inductive Stage : Session → Prop where
  | start {graph : Graph} {tokens : List String} {options : Options} {session : Session}
    (started : Session.start graph tokens options = .ok session) : Stage session
  | reset {session : Session} (stage : Stage session) : Stage session.reset
  | exhaust {session : Session} (stage : Stage session) (hread : session.read.1 = none) :
    Stage { session with reading := session.read.2 }
  | enter {session : Session} {part : WordPart} (stage : Stage session)
    (hread : session.read.1 = some part) : Stage (session.enter part)
  | move {session : Session} {next : SearchState} (stage : Stage session)
    (move : session.search.Move session.graph session.options session.reading.wordParts next) :
    Stage { session with search := next }
  | record {session : Session} (stage : Stage session) (metrics : RunMetrics) :
    Stage { session with metrics }

/-- The sessions that steps and resets lead to. -/
inductive Reachable : Session → Prop where
  | start {graph : Graph} {tokens : List String} {options : Options} {session : Session}
    (started : Session.start graph tokens options = .ok session) : Reachable session
  | step {session : Session} (reachable : Reachable session) (tracing : Bool) :
    Reachable (session.stepTracing tracing).2
  | reset {session : Session} (reachable : Reachable session) : Reachable session.reset

/-- The parts of a session fit together. -/
structure Coherent (session : Session) : Prop where
  ordered : session.reading.Ordered session.graph
  licensing : session.licensing.Sound session.graph session.reading.wordParts
  tables : session.search.Coherent session.reading.wordParts

/-! ### Starting and reading -/

variable {graph : Graph} {tokens : List String} {options : Options} {session : Session}

lemma isFirstPart_of_lookup {word : String} {entry : EntryId} (h : graph.lookup word = some entry) :
    (graph.entry entry).isFirstPart = true := by
  obtain ⟨hlt, hfound, -⟩ := Array.findIdx?_eq_some_iff_getElem.1 h
  rw [Graph.entry, Array.getD_eq_getD_getElem?, Array.getElem?_eq_getElem hlt]
  exact (Bool.and_eq_true_iff.1 hfound).2

lemma isFirstPart_of_lookupAll {entries : List EntryId} (h : lookupAll graph tokens = .ok entries) :
    ∀ entry ∈ entries, (graph.entry entry).isFirstPart = true := by
  induction tokens generalizing entries with
  | nil =>
    cases h
    simp
  | cons token tokens ih =>
    rw [lookupAll] at h
    split at h
    · cases h
    · next found hfound =>
      cases hrest : lookupAll graph tokens with
      | error cause => simp [hrest, Except.map] at h
      | ok rest =>
        simp only [hrest, Except.map, Except.ok.injEq] at h
        subst h
        intro entry hentry
        rcases List.mem_cons.1 hentry with rfl | hentry
        · exact isFirstPart_of_lookup hfound
        · exact ih hrest entry hentry

lemma start_eq_ok (h : Session.start graph tokens options = .ok session) :
    ∃ entries, lookupAll graph tokens = .ok entries ∧
      session = ofEntries graph options entries := by
  rw [Session.start] at h
  split at h
  · cases h
  · cases hentries : lookupAll graph tokens with
    | error cause => simp [hentries, Except.map] at h
    | ok entries =>
      simp only [hentries, Except.map, Except.ok.injEq] at h
      exact ⟨entries, rfl, h.symm⟩

lemma coherent_ofEntries {entries : List EntryId}
    (firsts : ∀ entry ∈ entries, (graph.entry entry).isFirstPart = true) :
    (ofEntries graph options entries).Coherent :=
  ⟨Reading.start_ordered firsts, Licensing.sound_start, SearchState.coherent_start⟩

lemma read_some (h : session.reading.Ordered session.graph) {part : WordPart}
    (hread : session.read.1 = some part) :
    session.read.2.wordParts = session.reading.wordParts.push part ∧
      part.signal = session.reading.wordParts.size + 1 ∧
      session.read.2.Ordered session.graph := by
  rw [read] at hread ⊢
  split at hread
  · next hempty =>
    rw [if_pos hempty]
    exact Reading.first_ordered h hempty hread
  · next hempty =>
    rw [if_neg hempty]
    exact Reading.next_ordered h hread

lemma read_none (h : session.reading.Ordered session.graph) (hread : session.read.1 = none) :
    session.read.2.wordParts = session.reading.wordParts ∧
      session.read.2.Ordered session.graph := by
  rw [read] at hread ⊢
  split at hread
  · next hempty =>
    rw [if_pos hempty]
    exact Reading.first_stays h hempty hread
  · next hempty =>
    rw [if_neg hempty]
    exact Reading.next_stays h hread

/-! ### Coherence of every stage -/

lemma Coherent.licence_sound (h : session.Coherent) {part : WordPart}
    (hread : session.read.1 = some part) : ∀ licence ∈ session.licences part,
      licence.Sound session.graph (session.reading.wordParts.push part) := by
  intro licence hlicence
  obtain ⟨-, hsignal, -⟩ := read_some h.ordered hread
  obtain ⟨entry, hentry, rfl⟩ := List.mem_map.1 hlicence
  exact (Licensing.activate_sound h.licensing hsignal).2 entry hentry

lemma Coherent.enter (h : session.Coherent) {part : WordPart}
    (hread : session.read.1 = some part) : (session.enter part).Coherent := by
  obtain ⟨hparts, hsignal, ordered⟩ := read_some h.ordered hread
  have hread' : (session.enter part).reading.wordParts = session.reading.wordParts.push part :=
    hparts
  refine ⟨ordered, hread' ▸ (Licensing.activate_sound h.licensing hsignal).1, ?_⟩
  rw [hread']
  exact SearchState.joinAll_coherent (SearchState.openPart_coherent h.tables part)
    fun licence hlicence => (h.licence_sound hread licence hlicence).ranges

theorem Stage.coherent (h : Stage session) : session.Coherent := by
  induction h with
  | start started =>
    obtain ⟨entries, hentries, rfl⟩ := start_eq_ok started
    exact coherent_ofEntries (isFirstPart_of_lookupAll hentries)
  | reset _ ih =>
    exact ⟨Reading.start_ordered ih.ordered.firsts, Licensing.sound_reset _, SearchState.coherent_start⟩
  | exhaust _ hread ih =>
    obtain ⟨hparts, ordered⟩ := read_none ih.ordered hread
    refine ⟨ordered, ?_, ?_⟩
    · exact hparts ▸ ih.licensing
    · exact hparts ▸ ih.tables
  | enter _ hread ih => exact ih.enter hread
  | move _ move ih => exact ⟨ih.ordered, ih.licensing, ih.tables.move move⟩
  | record _ metrics ih => exact ⟨ih.ordered, ih.licensing, ih.tables⟩

lemma Stage.moves (h : Stage session) {next : Climb} (moves : (Climb.start session.search).Moves
    session.graph session.options session.reading.wordParts next) :
    Stage { session with search := next.state } :=
  moves.preserves (P := fun s => Stage { session with search := s })
    (fun stage move => stage.move move) h

/-! ### What a step does -/

def setting (session : Session) (tracing : Bool) : Setting :=
  ⟨session.graph, session.options, tracing⟩

/-- The search of the step that enters a word part, with the number of its passes. -/
def searched (session : Session) (tracing : Bool) (part : WordPart) : Climb × Nat :=
  ((Climb.start (session.enter part).search).seed (session.setting tracing) part).settle
    (session.setting tracing)

lemma stepTracing_none (hread : session.read.1 = none) (tracing : Bool) :
    session.stepTracing tracing = (.error .exhausted, { session with reading := session.read.2 }) := by
  rw [stepTracing]
  simp only [hread]

/-- What a step that enters a word part tells about its search. -/
structure Reports (session : Session) (tracing : Bool) (part : WordPart) (result : StepResult) :
    Prop where
  part_eq : result.part = part
  edges_eq : result.edges = (session.search.openPart.joinAll (session.licences part)).2
  routes_eq : result.routes = (session.searched tracing part).1.added.toList
  passes_eq : result.passes = (session.searched tracing part).2
  capped_eq : result.capped = (session.searched tracing part).1.capped

def entered (session : Session) (tracing : Bool) (part : WordPart) (result : StepResult) : Session :=
  { session.enter part with
    search := (session.searched tracing part).1.state
    metrics := session.metrics.record result.metrics }

section Entered

variable (session : Session) (tracing : Bool) (part : WordPart) (result : StepResult)

@[simp] lemma graph_entered : (session.entered tracing part result).graph = session.graph := rfl

@[simp] lemma options_entered :
    (session.entered tracing part result).options = session.options := rfl

@[simp] lemma reading_entered :
    (session.entered tracing part result).reading = (session.enter part).reading := rfl

lemma metrics_entered : (session.entered tracing part result).metrics =
    session.metrics.record result.metrics := by
  unfold entered
  dsimp only

lemma search_entered :
    (session.entered tracing part result).search = (session.searched tracing part).1.state := by
  unfold entered
  dsimp only

end Entered

lemma absorb_entered (session : Session) (tracing : Bool) (part : WordPart) :
    ∃ result, session.Reports tracing part result ∧
      ({ session with reading := session.read.2 } : Session).absorb tracing part =
        (result, session.entered tracing part result) := by
  have told : ∃ result : StepResult, (result.part = part ∧
      result.edges = (session.search.openPart.joinAll (session.licences part)).2 ∧
      result.routes = (session.searched tracing part).1.added.toList ∧
      result.passes = (session.searched tracing part).2 ∧
      result.capped = (session.searched tracing part).1.capped) ∧
      ({ session with reading := session.read.2 } : Session).absorb tracing part =
        (result, session.entered tracing part result) := by
    -- The search is abstracted before anything is compared, as unfolding it would never end.
    unfold absorb entered searched enter setting licences
    dsimp only
    generalize session.licensing.activate session.graph part = activated
    obtain ⟨licensing, licences⟩ := activated
    dsimp only
    generalize session.search.openPart.joinAll (licences.map Prod.snd) = joined
    obtain ⟨search, edges⟩ := joined
    dsimp only
    generalize Climb.settle _ _ = settled
    obtain ⟨climb, passes⟩ := settled
    exact ⟨_, ⟨rfl, rfl, rfl, rfl, rfl⟩, rfl⟩
  obtain ⟨result, ⟨part_eq, edges_eq, routes_eq, passes_eq, capped_eq⟩, absorbed⟩ := told
  exact ⟨result, ⟨part_eq, edges_eq, routes_eq, passes_eq, capped_eq⟩, absorbed⟩

lemma stepTracing_some {part : WordPart} (hread : session.read.1 = some part) (tracing : Bool) :
    ∃ result, session.Reports tracing part result ∧
      session.stepTracing tracing = (.ok result, session.entered tracing part result) := by
  obtain ⟨result, reports, habsorb⟩ := session.absorb_entered tracing part
  refine ⟨result, reports, ?_⟩
  rw [stepTracing]
  simp only [hread, habsorb]

/-- A step that succeeds has read a word part and entered it. -/
lemma stepTracing_ok {tracing : Bool} {result : StepResult} {next : Session}
    (step : session.stepTracing tracing = (.ok result, next)) :
    ∃ part, session.read.1 = some part ∧ session.Reports tracing part result ∧
      next = session.entered tracing part result := by
  cases hread : session.read.1 with
  | none =>
    rw [stepTracing_none hread] at step
    cases step
  | some part =>
    obtain ⟨other, reports, hstep⟩ := stepTracing_some hread tracing
    rw [hstep] at step
    cases step
    exact ⟨part, rfl, reports, rfl⟩

/-- A step that fails has found nothing to read. -/
lemma stepTracing_error {tracing : Bool} {cause : SessionError} {next : Session}
    (step : session.stepTracing tracing = (.error cause, next)) :
    session.read.1 = none ∧ next = { session with reading := session.read.2 } := by
  cases hread : session.read.1 with
  | none =>
    rw [stepTracing_none hread] at step
    cases step
    exact ⟨rfl, rfl⟩
  | some part =>
    obtain ⟨result, -, hstep⟩ := stepTracing_some hread tracing
    rw [hstep] at step
    cases step

section Entering

variable {part : WordPart} (h : session.Coherent) (hread : session.read.1 = some part)
include h hread

lemma standsIn_enter : part.StandsIn (session.enter part).reading.wordParts := by
  obtain ⟨hparts, hsignal, -⟩ := read_some h.ordered hread
  change part.StandsIn session.read.2.wordParts
  rw [hparts]
  exact .of_push part hsignal

lemma seed_moves (tracing : Bool) :
    (Climb.start (session.enter part).search).Moves session.graph session.options
      (session.enter part).reading.wordParts
      ((Climb.start (session.enter part).search).seed (session.setting tracing) part) :=
  @Climb.seed_moves (session.setting tracing) _ _ _ (h.enter hread).tables (standsIn_enter h hread)

lemma searched_moves (tracing : Bool) :
    (Climb.start (session.enter part).search).Moves session.graph session.options
      (session.enter part).reading.wordParts (session.searched tracing part).1 := by
  have seeded := seed_moves h hread tracing
  exact seeded.trans (@Climb.settle_moves (session.setting tracing) _ _
    (seeded.coherent (h.enter hread).tables))

end Entering

theorem Reachable.stage (h : Reachable session) : Stage session := by
  induction h with
  | start started => exact .start started
  | reset _ ih => exact ih.reset
  | @step session _ tracing ih =>
    cases hread : session.read.1 with
    | none =>
      rw [stepTracing_none hread]
      exact ih.exhaust hread
    | some part =>
      obtain ⟨result, -, hstep⟩ := stepTracing_some hread tracing
      rw [hstep]
      have moved : Stage { session.enter part with
          search := (session.searched tracing part).1.state } :=
        (ih.enter hread).moves (searched_moves ih.coherent hread tracing)
      simpa only [entered] using moved.record (session.metrics.record result.metrics)

/-! ### A sample -/

def stepped (session : Session) : Nat → Session
  | 0 => session
  | n + 1 => (session.stepped n).step.2

lemma stepped_succ (session : Session) (n : Nat) :
    session.stepped (n + 1) = ((session.stepped n).stepTracing false).2 := rfl

lemma graph_stepTracing (session : Session) (tracing : Bool) :
    (session.stepTracing tracing).2.graph = session.graph := by
  cases hread : session.read.1 with
  | none => rw [stepTracing_none hread]
  | some part =>
    obtain ⟨result, -, hstep⟩ := stepTracing_some hread tracing
    rw [hstep]
    rfl

lemma graph_stepped (session : Session) (n : Nat) : (session.stepped n).graph = session.graph := by
  induction n with
  | zero => rfl
  | succ n ih => rw [stepped_succ, graph_stepTracing, ih]

lemma Reachable.stepped (h : Reachable session) (n : Nat) : Reachable (session.stepped n) := by
  induction n with
  | zero => exact h
  | succ n ih => exact ih.step false

/-- A noun, a head that takes a noun and hosts a free adjunct, and the adjunct. -/
def sampleEntries : List Entry :=
  [⟨"a", [⟨[], [], [⟨none, "N", []⟩]⟩]⟩,
    ⟨"h", [⟨[], [⟨some .select, "N", []⟩, ⟨some .adjoin, "D", []⟩], [⟨none, "V", []⟩]⟩]⟩,
    ⟨"d", [⟨[], [], [⟨none, "D", []⟩, ⟨none, "moves", []⟩]⟩]⟩]

/-- The session of the words of the sample in order. -/
def sample : Session :=
  ofEntries (.ofEntries sampleEntries) { Options.standard with maxRoutes := 10 } [0, 1, 2]

lemma sample_found :
    lookupAll (.ofEntries sampleEntries) ["a", "h", "d"] = .ok [0, 1, 2] := by
  decide +kernel

lemma sample_started :
    Session.start (.ofEntries sampleEntries) ["a", "h", "d"]
      { Options.standard with maxRoutes := 10 } = .ok sample := by
  rw [Session.start, sample_found]
  rfl

lemma sample_reachable (n : Nat) : Reachable (sample.stepped n) :=
  (Reachable.start sample_started).stepped n

end Session

end MergeGrammar
