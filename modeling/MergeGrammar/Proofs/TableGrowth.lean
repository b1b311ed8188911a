import Mathlib.Data.List.Infix
import MergeGrammar.Proofs.Stages

/-!
# Growth of the tables

Edges and routes are written behind those that are there already. So every list of a search is the
beginning of what it will be later, and two searches with the same edges take up the same licences.
-/

namespace MergeGrammar

namespace PartState

variable (part : PartState) (kind other : MergeKind) (signal : Signal)

lemma below_addBelow : (part.addBelow kind signal).below other =
    part.below other ++ if other = kind then [signal] else [] := by
  cases kind <;> cases other <;> simp [addBelow, below]

lemma above_addAbove : (part.addAbove kind signal).above other =
    part.above other ++ if other = kind then [signal] else [] := by
  cases kind <;> cases other <;> simp [addAbove, above]

end PartState

namespace SearchState

variable {state other next : SearchState} {licence : Licence}

lemma part_modifyPart (state : SearchState) (signal s : Signal) (f : PartState → PartState) :
    (state.modifyPart signal f).part s =
      if signal - 1 = s - 1 ∧ s - 1 < state.parts.size then f (state.part s) else state.part s := by
  by_cases hs : signal - 1 = s - 1
  · by_cases hlt : s - 1 < state.parts.size
    · rw [if_pos ⟨hs, hlt⟩, part_eq, part_eq, modifyPart, Array.getElem?_modify, if_pos hs,
        Array.getElem?_eq_getElem hlt]
      rfl
    · rw [if_neg fun h => hlt h.2, part_eq, part_eq, modifyPart, Array.getElem?_modify, if_pos hs,
        Array.getElem?_eq_none (Nat.le_of_not_lt hlt)]
      rfl
  · rw [if_neg fun h => hs h.1, part_modifyPart_of_ne hs]

/-! ### The edges after a joining -/

lemma below_joined (state : SearchState) (licence : Licence) (kind : MergeKind) (s : Signal) :
    ((state.joined licence).part s).below kind = (state.part s).below kind ++
      if (licence.upper - 1 = s - 1 ∧ s - 1 < state.parts.size) ∧ kind = licence.kind then
        [licence.lower] else [] := by
  rw [joined, part_modifyPart]
  rw [apply_ite (PartState.below · kind), PartState.below_addAbove, ite_self, part_modifyPart,
    apply_ite (PartState.below · kind), PartState.below_addBelow]
  split <;> simp [*]

lemma above_joined (state : SearchState) (licence : Licence) (kind : MergeKind) (s : Signal) :
    ((state.joined licence).part s).above kind = (state.part s).above kind ++
      if (licence.lower - 1 = s - 1 ∧ s - 1 < state.parts.size) ∧ kind = licence.kind then
        [licence.upper] else [] := by
  have size_eq : (state.modifyPart licence.upper
      (·.addBelow licence.kind licence.lower)).parts.size = state.parts.size := Array.size_modify
  have above_eq : ((state.modifyPart licence.upper
      (·.addBelow licence.kind licence.lower)).part s).above kind = (state.part s).above kind := by
    rw [part_modifyPart, apply_ite (PartState.above · kind), PartState.above_addBelow, ite_self]
  rw [joined, part_modifyPart, size_eq, apply_ite (PartState.above · kind),
    PartState.above_addAbove, above_eq]
  split <;> simp [*]

/-- A licence is taken up unless it joins a word part to itself or is there already. -/
lemma join?_eq (state : SearchState) (licence : Licence) : state.join? licence =
    if licence.upper = licence.lower ∨ licence.lower ∈ (state.part licence.upper).below licence.kind
    then none else some (state.joined licence) := by
  cases licence <;> rfl

lemma joinAll_cons (state : SearchState) (licence : Licence) (licences : List Licence) :
    state.joinAll (licence :: licences) =
      if licence.upper = licence.lower ∨ licence.lower ∈ (state.part licence.upper).below licence.kind
      then state.joinAll licences
      else (((state.joined licence).joinAll licences).1,
        licence :: ((state.joined licence).joinAll licences).2) := by
  rw [joinAll, join?_eq]
  by_cases skip : licence.upper = licence.lower ∨
      licence.lower ∈ (state.part licence.upper).below licence.kind
  · rw [if_pos skip, if_pos skip]
  · rw [if_neg skip, if_neg skip]

lemma edges_eq (state : SearchState) (side : PartState → List Signal) : state.edges side =
    (List.range' 1 state.parts.size).flatMap fun signal =>
      (side (state.part signal)).map fun other => (signal, other) := by
  have zipped : state.parts.toList.zipIdx 1 =
      (List.range' 1 state.parts.size).map fun signal => (state.part signal, signal) := by
    refine List.ext_getElem (by simp) fun i hi _ => ?_
    have hlt : i < state.parts.size := by simpa using hi
    simp [part_eq, Array.getElem?_eq_getElem hlt]
  rw [edges, zipped, List.flatMap_map]

/-! ### The same edges -/

/-- Two searches have the same edges, in the same order. -/
structure SameEdges (state other : SearchState) : Prop where
  size_parts : other.parts.size = state.parts.size
  below_eq : ∀ kind s, (other.part s).below kind = (state.part s).below kind
  above_eq : ∀ kind s, (other.part s).above kind = (state.part s).above kind

lemma Extends.sameEdges (h : state.Extends next) : state.SameEdges next :=
  ⟨h.size_parts, h.below_eq, h.above_eq⟩

namespace SameEdges

lemma refl (state : SearchState) : state.SameEdges state := ⟨rfl, fun _ _ => rfl, fun _ _ => rfl⟩

lemma symm (h : state.SameEdges other) : other.SameEdges state :=
  ⟨h.size_parts.symm, fun kind s => (h.below_eq kind s).symm, fun kind s => (h.above_eq kind s).symm⟩

lemma trans {third : SearchState} (h : state.SameEdges other) (h' : other.SameEdges third) :
    state.SameEdges third where
  size_parts := h'.size_parts.trans h.size_parts
  below_eq kind s := (h'.below_eq kind s).trans (h.below_eq kind s)
  above_eq kind s := (h'.above_eq kind s).trans (h.above_eq kind s)

lemma openPart (h : state.SameEdges other) : state.openPart.SameEdges other.openPart where
  size_parts := by
    rw [SearchState.openPart, SearchState.openPart, Array.size_push, Array.size_push, h.size_parts]
  below_eq kind s := by rw [part_openPart, part_openPart, h.below_eq]
  above_eq kind s := by rw [part_openPart, part_openPart, h.above_eq]

lemma joined (h : state.SameEdges other) (licence : Licence) :
    (state.joined licence).SameEdges (other.joined licence) where
  size_parts := by rw [size_parts_joined, size_parts_joined, h.size_parts]
  below_eq kind s := by rw [below_joined, below_joined, h.below_eq, h.size_parts]
  above_eq kind s := by rw [above_joined, above_joined, h.above_eq, h.size_parts]

/-- The same licences give the same new edges. -/
lemma joinAll (h : state.SameEdges other) (licences : List Licence) :
    (state.joinAll licences).1.SameEdges (other.joinAll licences).1 ∧
      (other.joinAll licences).2 = (state.joinAll licences).2 := by
  induction licences generalizing state other with
  | nil => exact ⟨h, rfl⟩
  | cons licence licences ih =>
    rw [joinAll_cons, joinAll_cons, h.below_eq]
    split
    · exact ih h
    · obtain ⟨same, reported⟩ := ih (h.joined licence)
      exact ⟨same, congrArg (licence :: ·) reported⟩

lemma edges_eq (h : state.SameEdges other) (kind : MergeKind) :
    other.edges (·.below kind) = state.edges (·.below kind) := by
  rw [SearchState.edges_eq, SearchState.edges_eq, h.size_parts]
  simp only [h.below_eq]

end SameEdges

/-! ### Later tables -/

/-- Every list of the later tables begins with that of the earlier ones. -/
structure Continues (earlier later : SearchState) : Prop where
  arena : earlier.arena.routes.toList <+: later.arena.routes.toList
  below : ∀ kind s, (earlier.part s).below kind <+: (later.part s).below kind
  above : ∀ kind s, (earlier.part s).above kind <+: (later.part s).above kind
  routesDown : ∀ s, (earlier.part s).routesDown.toList <+: (later.part s).routesDown.toList

namespace Continues

lemma refl (state : SearchState) : state.Continues state :=
  ⟨List.prefix_rfl, fun _ _ => List.prefix_rfl, fun _ _ => List.prefix_rfl, fun _ => List.prefix_rfl⟩

lemma trans {third : SearchState} (h : state.Continues other) (h' : other.Continues third) :
    state.Continues third where
  arena := h.arena.trans h'.arena
  below kind s := (h.below kind s).trans (h'.below kind s)
  above kind s := (h.above kind s).trans (h'.above kind s)
  routesDown s := (h.routesDown s).trans (h'.routesDown s)

lemma openPart (state : SearchState) : state.Continues state.openPart where
  arena := List.prefix_rfl
  below kind s := by
    rw [part_openPart]
  above kind s := by
    rw [part_openPart]
  routesDown s := by
    rw [part_openPart]

lemma joined (state : SearchState) (licence : Licence) : state.Continues (state.joined licence) where
  arena := List.prefix_rfl
  below kind s := by
    rw [below_joined]
    exact List.prefix_append _ _
  above kind s := by
    rw [above_joined]
    exact List.prefix_append _ _
  routesDown s := by
    rw [routesDown_joined]

lemma joinAll (state : SearchState) (licences : List Licence) :
    state.Continues (state.joinAll licences).1 :=
  joinAll_preserves (P := fun s => state.Continues s)
    (fun {s} licence _ hs => hs.trans (joined s licence)) (refl state)

lemma add (state : SearchState) (route : Route) : state.Continues (state.add route) where
  arena := by
    rw [arena_add, Arena.push, Array.toList_push]
    exact List.prefix_append _ _
  below kind s := by
    rw [below_part_add]
  above kind s := by
    rw [above_part_add]
  routesDown s := by
    rw [part_add, part_modifyPart, apply_ite PartState.routesDown]
    split
    · rw [Array.toList_push]
      exact List.prefix_append _ _
    · exact List.prefix_rfl

lemma move {graph : Graph} {options : Options} {read : Array WordPart}
    (h : state.Move graph options read next) : state.Continues next := by
  cases h with
  | add => exact add _ _
  | drop =>
    exact ⟨List.prefix_rfl, fun _ _ => List.prefix_rfl, fun _ _ => List.prefix_rfl,
      fun _ => List.prefix_rfl⟩

end Continues

end SearchState

lemma Climb.Moves.continues {graph : Graph} {options : Options} {read : Array WordPart}
    {climb next : Climb} (h : Climb.Moves graph options read climb next) :
    climb.state.Continues next.state :=
  h.preserves (fun hs move => hs.trans (.move move)) (.refl _)

namespace Session

variable {session : Session}

/-- A step writes behind what is there. -/
theorem Stage.continues (h : Stage session) (tracing : Bool) :
    session.search.Continues (session.stepTracing tracing).2.search := by
  cases hread : session.read.1 with
  | none =>
    rw [stepTracing_none hread]
    exact .refl _
  | some part =>
    obtain ⟨result, -, hstep⟩ := stepTracing_some hread tracing
    rw [hstep, search_entered]
    have entered : session.search.Continues (session.enter part).search :=
      (SearchState.Continues.openPart _).trans (.joinAll _ _)
    exact entered.trans (searched_moves h.coherent hread tracing).continues

end Session

end MergeGrammar
