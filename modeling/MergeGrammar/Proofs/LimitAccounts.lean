import Mathlib.Algebra.GroupWithZero.Nat
import MergeGrammar.Proofs.RouteRoom

/-!
# Accounts of the limits

A combination is tried again in every pass and in every later step, but it is stored or dropped only
once. So the tables, the counters of the session and what its steps have told agree with each other:
the keys are those of the stored routes, the dropped keys are counted one by one and the routes that
the steps name are all routes in the order of their numbers.
-/

namespace MergeGrammar

namespace SearchState

variable {graph : Graph} {options : Options} {read : Array WordPart} {state : SearchState}

/-- Every dropped key has been counted once and is not that of a stored route, and the counted spans
are those of stored routes. -/
structure Balanced (state : SearchState) : Prop where
  apart : ∀ key, state.keys.contains key = true → state.rejected.contains key = false
  capped_eq : state.capped = state.rejected.size
  counted : ∀ code, state.profiles.contains code = true ↔
    ∃ id, id < state.arena.size ∧ (state.arena.route id).span.code = code

namespace Balanced

lemma start : SearchState.start.Balanced where
  apart key hkey := by simp [SearchState.start] at hkey
  capped_eq := rfl
  counted code := by
    refine iff_of_false (by simp [SearchState.start]) ?_
    rintro ⟨_, hid, _⟩
    exact Nat.not_lt_zero _ hid

lemma add (h : state.Balanced) {route : Route} (unknown : state.isKnown route.key = false) :
    (state.add route).Balanced where
  apart key hkey := by
    obtain ⟨-, hnew⟩ := Bool.or_eq_false_iff.1 unknown
    rw [SearchState.add, Std.TreeSet.contains_insert, Bool.or_eq_true, beq_iff_eq] at hkey
    rcases hkey with heq | hkey
    · rw [← Std.LawfulEqCmp.eq_of_compare heq]
      exact hnew
    · exact h.apart key hkey
  capped_eq := h.capped_eq
  counted code := by
    simp only [SearchState.add, Std.TreeMap.contains_insert, Bool.or_eq_true, h.counted,
      Arena.route_push_iff fun r => r.span.code = code, exists_or]
    rw [or_comm]
    refine or_congr Iff.rfl ?_
    simp

lemma drop (h : state.Balanced) {key : List Nat} (unknown : state.isKnown key = false) :
    (state.drop key).Balanced where
  apart other hother := by
    obtain ⟨hstored, -⟩ := Bool.or_eq_false_iff.1 unknown
    have hold := h.apart other hother
    rw [SearchState.drop, Std.TreeSet.contains_insert, Bool.or_eq_false_iff, beq_eq_false_iff_ne]
    refine ⟨fun heq => ?_, hold⟩
    have hkey : state.keys.contains other = true := hother
    rw [← Std.LawfulEqCmp.eq_of_compare heq, hstored] at hkey
    cases hkey
  capped_eq := by
    obtain ⟨-, hnew⟩ := Bool.or_eq_false_iff.1 unknown
    change state.capped + 1 = (state.rejected.insert key).size
    rw [Std.TreeSet.size_insert, hnew, h.capped_eq]
    rfl
  counted := h.counted

lemma move (h : state.Balanced) {next : SearchState} (move : state.Move graph options read next) :
    next.Balanced := by
  cases move with
  | add admits => exact h.add admits.unknown
  | drop refuses => exact h.drop refuses.unknown

lemma joinAll (h : state.Balanced) (licences : List Licence) :
    (state.joinAll licences).1.Balanced :=
  joinAll_preserves (P := Balanced) (fun _ _ hs => ⟨hs.apart, hs.capped_eq, hs.counted⟩) h

end Balanced

end SearchState

/-! ### The counters of a search -/

/-- What a search has counted since it started from some tables. -/
structure Climb.Counts (start : SearchState) (climb : Climb) : Prop where
  capped_eq : climb.state.capped = start.capped + climb.capped
  added_eq : List.range climb.state.arena.size =
    List.range start.arena.size ++ climb.added.toList

namespace Climb

variable {graph : Graph} {options : Options} {read : Array WordPart} {state : SearchState}
  {climb next : Climb}

lemma counts_start (state : SearchState) : (Climb.start state).Counts state where
  capped_eq := rfl
  added_eq := (List.append_nil _).symm

lemma Counts.move (h : climb.Counts state) (move : climb.Move graph options read next) :
    next.Counts state := by
  cases move with
  | idle state_eq added capped =>
    exact ⟨by rw [state_eq, capped, h.capped_eq], by rw [state_eq, added, h.added_eq]⟩
  | add _ state_eq added capped =>
    refine ⟨?_, ?_⟩
    · rw [state_eq, capped]
      exact h.capped_eq
    · rw [state_eq, added, SearchState.arena_add, Arena.size_push, List.range_succ, h.added_eq,
        Array.toList_push, List.append_assoc]
  | drop _ state_eq added capped =>
    refine ⟨?_, ?_⟩
    · rw [state_eq, capped, ← Nat.add_assoc, ← h.capped_eq]
      rfl
    · rw [state_eq, added]
      exact h.added_eq

lemma Moves.counts (h : climb.Moves graph options read next) (counts : climb.Counts state) :
    next.Counts state := by
  induction h with
  | refl => exact counts
  | tail _ move ih => exact ih.move move

end Climb

namespace Session

variable {session next : Session} {told : List StepResult}

lemma Stage.balanced (h : Stage session) : session.search.Balanced := by
  induction h with
  | start started =>
    obtain ⟨entries, -, rfl⟩ := start_eq_ok started
    exact .start
  | reset => exact .start
  | exhaust _ _ ih => exact ih
  | @enter session part _ _ ih =>
    have opened : session.search.openPart.Balanced := ⟨ih.apart, ih.capped_eq, ih.counted⟩
    exact opened.joinAll _
  | move _ move ih => exact ih.move move
  | record _ _ ih => exact ih

/-! ### What the steps tell -/

/-- The results of the steps that have succeeded since the sentence was started over. -/
inductive Told : Session → List StepResult → Prop where
  | start {graph : Graph} {tokens : List String} {options : Options} {session : Session}
    (started : Session.start graph tokens options = .ok session) : Told session []
  | step {session next : Session} {told : List StepResult} {tracing : Bool} {result : StepResult}
    (earlier : Told session told) (step : session.stepTracing tracing = (.ok result, next)) :
    Told next (told ++ [result])
  | fail {session next : Session} {told : List StepResult} {tracing : Bool} {cause : SessionError}
    (earlier : Told session told) (step : session.stepTracing tracing = (.error cause, next)) :
    Told next told
  | reset {session : Session} {told : List StepResult} (earlier : Told session told) :
    Told session.reset []

lemma Told.reachable (h : Told session told) : Reachable session := by
  induction h with
  | start started => exact .start started
  | @step session next told tracing result _ step ih =>
    have stepped := ih.step tracing
    rwa [step] at stepped
  | @fail session next told tracing cause _ step ih =>
    have stepped := ih.step tracing
    rwa [step] at stepped
  | reset _ ih => exact ih.reset

lemma Reachable.exists_told (h : Reachable session) : ∃ told, Told session told := by
  induction h with
  | start started => exact ⟨[], .start started⟩
  | reset _ ih =>
    obtain ⟨told, earlier⟩ := ih
    exact ⟨[], earlier.reset⟩
  | @step session _ tracing ih =>
    obtain ⟨told, earlier⟩ := ih
    cases hstep : session.stepTracing tracing with
    | mk outcome next =>
      cases outcome with
      | ok result => exact ⟨_, earlier.step hstep⟩
      | error cause => exact ⟨_, earlier.fail hstep⟩

/-- A run tells what its steps tell. -/
lemma Told.runWithin (h : Told session told) {tracing : Bool} {fuel : Nat}
    {results : List StepResult}
    (run : session.runWithin tracing fuel = (.ok results, next)) : Told next (told ++ results) := by
  induction fuel generalizing session told results with
  | zero =>
    cases run
    rwa [List.append_nil]
  | succ fuel ih =>
    rw [Session.runWithin] at run
    split at run
    · cases run
      rwa [List.append_nil]
    · cases hstep : session.stepTracing tracing with
      | mk outcome middle =>
        cases outcome with
        | error cause =>
          rw [hstep] at run
          cases run
        | ok result =>
          rw [hstep] at run
          cases hrest : middle.runWithin tracing fuel with
          | mk rest last =>
            cases rest with
            | error cause =>
              simp only [hrest] at run
              cases run
            | ok rest =>
              simp only [hrest] at run
              cases run
              have later := ih (h.step hstep) hrest
              rwa [List.append_assoc] at later

/-- There is a step for every word part that has been read. -/
lemma Told.parts_eq (h : Told session told) :
    told.map StepResult.part = session.reading.wordParts.toList := by
  induction h with
  | start started =>
    obtain ⟨entries, -, rfl⟩ := start_eq_ok started
    rfl
  | @step session next told tracing result earlier step ih =>
    obtain ⟨part, hread, reports, rfl⟩ := stepTracing_ok step
    obtain ⟨hparts, -⟩ := read_some earlier.reachable.stage.coherent.ordered hread
    change _ = session.read.2.wordParts.toList
    rw [List.map_append, ih, hparts, Array.toList_push, List.map_singleton, reports.part_eq]
  | fail earlier step ih =>
    obtain ⟨hread, rfl⟩ := stepTracing_error step
    obtain ⟨hparts, -⟩ := read_none earlier.reachable.stage.coherent.ordered hread
    exact ih.trans (congrArg Array.toList hparts.symm)
  | reset => rfl

/-- The counters of a session agree with its tables and with what its steps have told. -/
structure Sums (session : Session) (told : List StepResult) : Prop where
  metrics_capped : session.metrics.capped = session.capped
  told_capped : (told.map StepResult.capped).sum = session.capped
  metrics_routes : session.metrics.routes = session.routeCount
  told_routes : told.flatMap StepResult.routes = List.range session.routeCount
  metrics_steps : session.metrics.steps = told.map StepResult.metrics

lemma Sums.step (h : session.Sums told) (stage : Stage session) {tracing : Bool}
    {result : StepResult} (step : session.stepTracing tracing = (.ok result, next)) :
    next.Sums (told ++ [result]) := by
  obtain ⟨part, hread, reports, rfl⟩ := stepTracing_ok step
  have counts : (session.searched tracing part).1.Counts (session.enter part).search :=
    (searched_moves stage.coherent hread tracing).counts (Climb.counts_start _)
  have harena := session.arena_enter part
  have capped_eq : (session.entered tracing part result).capped =
      session.capped + result.capped := by
    rw [capped, search_entered, counts.capped_eq, capped_enter, reports.capped_eq]
    rfl
  have routes_eq : List.range (session.entered tracing part result).routeCount =
      List.range session.routeCount ++ result.routes := by
    rw [routeCount, search_entered, counts.added_eq, harena, reports.routes_eq]
    rfl
  have count_eq := congrArg List.length routes_eq
  rw [List.length_append, List.length_range, List.length_range] at count_eq
  refine ⟨?_, ?_, ?_, ?_, ?_⟩
  · rw [metrics_entered, capped_eq, ← h.metrics_capped]
    rfl
  · rw [List.map_append, List.sum_append, h.told_capped, capped_eq]
    simp
  · rw [metrics_entered, count_eq, ← h.metrics_routes]
    rfl
  · rw [List.flatMap_append, h.told_routes, routes_eq]
    simp
  · rw [metrics_entered, List.map_append, ← h.metrics_steps]
    rfl

theorem Told.sums (h : Told session told) : session.Sums told := by
  induction h with
  | start started =>
    obtain ⟨entries, -, rfl⟩ := start_eq_ok started
    exact ⟨rfl, rfl, rfl, rfl, rfl⟩
  | step earlier step ih => exact ih.step earlier.reachable.stage step
  | fail _ step ih =>
    obtain ⟨-, rfl⟩ := stepTracing_error step
    exact ⟨ih.metrics_capped, ih.told_capped, ih.metrics_routes, ih.told_routes, ih.metrics_steps⟩
  | reset => exact ⟨rfl, rfl, rfl, rfl, rfl⟩

/-- The limits, the tables, the counters and what has been told agree. -/
structure Accounts (session : Session) (told : List StepResult) : Prop
    extends session.Sums told where
  keys_iff : ∀ key, session.search.keys.contains key = true ↔
    ∃ id, id < session.routeCount ∧ (session.search.arena.route id).key = key
  apart : ∀ key, session.search.keys.contains key = true →
    session.search.rejected.contains key = false
  counted : ∀ code, session.search.profiles.contains code = true ↔
    ∃ id, id < session.routeCount ∧ (session.search.arena.route id).span.code = code
  profiles_eq : ∀ span, session.search.profileCount span = (session.search.routesWith span).card
  profiles_le : ∀ span, (session.search.routesWith span).card ≤ session.options.profileCap
  routes_le : session.routeCount ≤ session.options.maxRoutes
  capped_eq : session.capped = session.search.rejected.size

lemma Told.accounts (h : Told session told) : session.Accounts told := by
  have stage := h.reachable.stage
  have balanced := stage.balanced
  have tallied := stage.tallied
  exact {
    toSums := h.sums
    keys_iff := stage.keyed.stored
    apart := balanced.apart
    counted := balanced.counted
    profiles_eq := tallied.count_eq
    profiles_le := fun span => tallied.count_eq span ▸ tallied.count_le span
    routes_le := stage.allBuilt.2
    capped_eq := balanced.capped_eq }

/-- In every session the keys are those of the stored routes and apart from the dropped ones, the
spans are counted and keep to their limit as the routes do to theirs, each dropped key has been
counted once, by its step, by the metrics and by the session, and the routes that the steps have told
are all routes in the order of their numbers. A run makes no difference to this. -/
theorem limits_accounted (reachable : Reachable session) :
    (∃ told, Told session told) ∧ ∀ told, Told session told → session.Accounts told ∧
      ∀ tracing results next, session.runTracing tracing = (.ok results, next) →
        next.Accounts (told ++ results) :=
  ⟨reachable.exists_told, fun _ earlier =>
    ⟨earlier.accounts, fun _ _ _ run => (earlier.runWithin run).accounts⟩⟩

/-- The session of the sample with room for four routes. -/
def crampedSample : Session :=
  ofEntries (.ofEntries sampleEntries) { Options.standard with maxRoutes := 4 } [0, 1, 2]

lemma crampedSample_started :
    Session.start (.ofEntries sampleEntries) ["a", "h", "d"]
      { Options.standard with maxRoutes := 4 } = .ok crampedSample := by
  rw [Session.start, sample_found]
  rfl

/-- The two routes of the sample for which there is no room are told as dropped. -/
theorem crampedSample_accounted : ∃ told, Told (crampedSample.stepped 3) told ∧
    (told.map StepResult.capped).sum = 2 ∧ (crampedSample.stepped 3).search.rejected.size = 2 ∧
    told.flatMap StepResult.routes = [0, 1, 2, 3] := by
  obtain ⟨⟨told, earlier⟩, accounted⟩ :=
    limits_accounted ((Reachable.start crampedSample_started).stepped 3)
  obtain ⟨accounts, -⟩ := accounted told earlier
  have capped : (crampedSample.stepped 3).capped = 2 := by decide +kernel
  have count : (crampedSample.stepped 3).routeCount = 4 := by decide +kernel
  exact ⟨told, earlier, accounts.told_capped.trans capped, accounts.capped_eq.symm.trans capped,
    accounts.told_routes.trans (by rw [count]; rfl)⟩

end Session

end MergeGrammar
