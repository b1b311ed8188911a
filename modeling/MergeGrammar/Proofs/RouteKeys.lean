import MergeGrammar.Proofs.Stages

/-!
# Keys of the routes

The keys that a search holds are those of its stored routes, and no two stored routes share one. A key
is only ever refused when a limit has dropped its route. So without drops every known key belongs to
exactly one stored route.
-/

namespace MergeGrammar

namespace SearchState

variable {graph : Graph} {options : Options} {read : Array WordPart} {state : SearchState}

/-- The keys that are held are those of the stored routes, one for each, and a refused key has been
counted. -/
structure Keyed (state : SearchState) : Prop where
  stored : ∀ key, state.keys.contains key = true ↔
    ∃ id, id < state.arena.size ∧ (state.arena.route id).key = key
  distinct : ∀ id other, id < state.arena.size → other < state.arena.size →
    (state.arena.route id).key = (state.arena.route other).key → id = other
  refused : ∀ key, state.rejected.contains key = true → 0 < state.capped

namespace Keyed

lemma start : SearchState.start.Keyed where
  stored key := by
    refine iff_of_false ?_ fun ⟨_, hid, _⟩ => Nat.not_lt_zero _ hid
    simp [SearchState.start]
  distinct id _ hid := absurd hid (Nat.not_lt_zero id)
  refused key hkey := by simp [SearchState.start] at hkey

/-- Without drops every known key belongs to a stored route. -/
lemma exists_of_known (h : state.Keyed) (uncapped : state.capped = 0) {key : List Nat}
    (known : state.isKnown key = true) :
    ∃ id, id < state.arena.size ∧ (state.arena.route id).key = key := by
  rcases Bool.or_eq_true_iff.1 known with hkey | hkey
  · exact (h.stored key).1 hkey
  · exact absurd uncapped (h.refused key hkey).ne'

lemma add (h : state.Keyed) {route : Route} (unknown : state.isKnown route.key = false) :
    (state.add route).Keyed := by
  obtain ⟨hnew, -⟩ := Bool.or_eq_false_iff.1 unknown
  have apart : ∀ id, id < state.arena.size → (state.arena.route id).key ≠ route.key := by
    intro id hid heq
    have hold := (h.stored route.key).2 ⟨id, hid, heq⟩
    rw [hnew] at hold
    cases hold
  refine ⟨fun key => ?_, fun id other hid hother heq => ?_, h.refused⟩
  · simp only [SearchState.add, Std.TreeSet.contains_insert, Bool.or_eq_true, h.stored,
      Arena.route_push_iff fun r => r.key = key, exists_or]
    rw [or_comm]
    refine or_congr Iff.rfl ?_
    simp
  · rw [arena_add, Arena.size_push, Nat.lt_succ_iff_lt_or_eq] at hid hother
    rw [arena_add] at heq
    rcases hid with hid | rfl <;> rcases hother with hother | rfl
    · rw [Arena.route_push_of_lt hid, Arena.route_push_of_lt hother] at heq
      exact h.distinct id other hid hother heq
    · rw [Arena.route_push_of_lt hid, Arena.route_push_size] at heq
      exact absurd heq (apart id hid)
    · rw [Arena.route_push_of_lt hother, Arena.route_push_size] at heq
      exact absurd heq.symm (apart other hother)
    · rfl

lemma drop (h : state.Keyed) (key : List Nat) : (state.drop key).Keyed :=
  ⟨h.stored, h.distinct, fun _ _ => Nat.succ_pos _⟩

lemma move (h : state.Keyed) {next : SearchState} (move : state.Move graph options read next) :
    next.Keyed := by
  cases move with
  | add admits => exact h.add admits.unknown
  | drop refuses => exact h.drop _

lemma joinAll (h : state.Keyed) (licences : List Licence) : (state.joinAll licences).1.Keyed :=
  joinAll_preserves (P := Keyed) (fun _ _ hs => ⟨hs.stored, hs.distinct, hs.refused⟩) h

end Keyed

end SearchState

namespace Session

variable {session : Session}

theorem Stage.keyed (h : Stage session) : session.search.Keyed := by
  induction h with
  | start started =>
    obtain ⟨entries, -, rfl⟩ := start_eq_ok started
    exact .start
  | reset => exact .start
  | exhaust _ _ ih => exact ih
  | @enter session part _ _ ih =>
    have opened : session.search.openPart.Keyed := ⟨ih.stored, ih.distinct, ih.refused⟩
    exact opened.joinAll _
  | move _ move ih => exact ih.move move
  | record _ _ ih => exact ih

end Session

end MergeGrammar
