import MergeGrammar.Event
import MergeGrammar.Options
import Std.Data.TreeMap
import Std.Data.TreeSet

/-!
# The state of the search

The search for derivations keeps the edges between word parts, the routes found so far with the keys
by which they are recognised, and the keys of routes that a limit has dropped. A profile is a span,
and the number of routes that have it is limited.
-/

namespace MergeGrammar

/-- The edges of a word part and the routes rooted at it. -/
structure PartState where
  /-- Heads this word part is an argument of. -/
  headEdges : List Signal
  /-- Arguments this word part selects. -/
  argEdges : List Signal
  /-- Adjuncts this word part hosts. -/
  adjunctions : List Signal
  /-- Hosts this word part can adjoin to. -/
  adjunctTo : List Signal
  routesDown : Array RouteId
deriving DecidableEq, Repr

instance : Inhabited PartState := ⟨⟨[], [], [], [], #[]⟩⟩

/-- Everything the search knows about the word parts read so far. -/
structure SearchState where
  arena : Arena
  /-- The word part of signal `s` has number `s - 1`. -/
  parts : Array PartState
  /-- The keys of the stored routes. -/
  keys : Std.TreeSet (List Nat)
  /-- The keys of the routes that a limit has dropped. -/
  rejected : Std.TreeSet (List Nat)
  /-- For the code of a span, the number of stored routes that have it. -/
  profiles : Std.TreeMap (List Nat) Nat
  capped : Nat
  /-- Whether a dropped route has been reported. -/
  warned : Bool

namespace SearchState

def start : SearchState := ⟨.empty, #[], ∅, ∅, ∅, 0, false⟩

instance : Inhabited SearchState := ⟨start⟩

def part (state : SearchState) (signal : Signal) : PartState :=
  state.parts.getD (signal - 1) default

/-- The state of the word part of a signal that has been read. -/
def part? (state : SearchState) (signal : Signal) : Option PartState :=
  if signal = 0 then none else state.parts[signal - 1]?

theorem part_eq (state : SearchState) (signal : Signal) :
    state.part signal = (state.parts[signal - 1]?).getD default :=
  Array.getD_eq_getD_getElem?

def modifyPart (state : SearchState) (signal : Signal) (f : PartState → PartState) : SearchState :=
  { state with parts := state.parts.modify (signal - 1) f }

theorem part_modifyPart_self {state : SearchState} {signal : Signal}
    (h : signal - 1 < state.parts.size) (f : PartState → PartState) :
    (state.modifyPart signal f).part signal = f (state.part signal) := by
  simp only [part_eq, modifyPart, Array.getElem?_modify, Array.getElem?_eq_getElem h]
  rfl

theorem part_modifyPart_of_ne {state : SearchState} {signal s : Signal}
    (h : signal - 1 ≠ s - 1) (f : PartState → PartState) :
    (state.modifyPart signal f).part s = state.part s := by
  simp [part_eq, modifyPart, Array.getElem?_modify, h]

theorem part_modifyPart_eq_or (state : SearchState) (signal s : Signal)
    (f : PartState → PartState) :
    (state.modifyPart signal f).part s = state.part s ∨
      (state.modifyPart signal f).part s = f (state.part s) := by
  by_cases hs : signal - 1 = s - 1
  · by_cases hlt : s - 1 < state.parts.size
    · right
      simp only [part_eq, modifyPart, Array.getElem?_modify, if_pos hs,
        Array.getElem?_eq_getElem hlt]
      rfl
    · left
      simp [part_eq, modifyPart, hlt]
  · exact Or.inl (part_modifyPart_of_ne hs f)

def openPart (state : SearchState) : SearchState :=
  { state with parts := state.parts.push default }

@[simp] theorem part_openPart (state : SearchState) (signal : Signal) :
    state.openPart.part signal = state.part signal := by
  simp only [part_eq, openPart, Array.getElem?_push]
  split
  · next h => simp [h]
  · rfl

/-- Adds the edge of a licence, unless it is there already or joins a word part to itself. -/
def join? (state : SearchState) : Licence → Option SearchState
  | .merge head arg =>
    if head = arg ∨ arg ∈ (state.part head).argEdges then none
    else
      some ((state.modifyPart head fun p => { p with argEdges := p.argEdges ++ [arg] }).modifyPart
        arg fun p => { p with headEdges := p.headEdges ++ [head] })
  | .adjunction host adjunct =>
    if host = adjunct ∨ adjunct ∈ (state.part host).adjunctions then none
    else
      some ((state.modifyPart host fun p =>
        { p with adjunctions := p.adjunctions ++ [adjunct] }).modifyPart
        adjunct fun p => { p with adjunctTo := p.adjunctTo ++ [host] })

/-- Adds the edges of several licences in order and tells which of them gave a new edge. -/
def joinAll (state : SearchState) : List Licence → SearchState × List Licence
  | [] => (state, [])
  | licence :: licences =>
    match state.join? licence with
    | none => state.joinAll licences
    | some state =>
      let (state, others) := state.joinAll licences
      (state, licence :: others)

def isKnown (state : SearchState) (key : List Nat) : Bool :=
  state.keys.contains key || state.rejected.contains key

def profileCount (state : SearchState) (span : Span) : Nat := state.profiles.getD span.code 0

def add (state : SearchState) (route : Route) : SearchState :=
  let id := state.arena.size
  let count := state.profileCount route.span
  { state with
    arena := state.arena.push route
    parts := state.parts.modify (route.root.signal - 1) fun p =>
      { p with routesDown := p.routesDown.push id }
    keys := state.keys.insert route.key
    profiles := state.profiles.insert route.span.code (count + 1) }

/-- Remembers that a limit has dropped the route of a key. -/
def drop (state : SearchState) (key : List Nat) : SearchState :=
  { state with
    rejected := state.rejected.insert key
    capped := state.capped + 1
    warned := true }

/-- Pairs of a word part and another one that `side` gives for it, by ascending signal of the
former. -/
def edges (state : SearchState) (side : PartState → List Signal) : List (Signal × Signal) :=
  (state.parts.toList.zipIdx 1).flatMap fun (part, signal) =>
    (side part).map fun other => (signal, other)

theorem mem_edges {state : SearchState} {side : PartState → List Signal} {s t : Nat} :
    (s, t) ∈ state.edges side ↔ 0 < s ∧ s ≤ state.parts.size ∧ t ∈ side (state.part s) := by
  simp only [edges, List.mem_flatMap, List.mem_map, Prod.mk.injEq, Prod.exists,
    List.mk_mem_zipIdx_iff_le_and_getElem?_sub, Array.getElem?_toList, part_eq]
  constructor
  · rintro ⟨part, signal, ⟨hs, hpart⟩, other, ht, hsignal, hother⟩
    subst signal other
    obtain ⟨hlt, -⟩ := Array.getElem?_eq_some_iff.1 hpart
    exact ⟨hs, by omega, by simpa [hpart] using ht⟩
  · rintro ⟨hs, hle, ht⟩
    have hlt : s - 1 < state.parts.size := by omega
    refine ⟨state.parts[s - 1], s, ⟨hs, Array.getElem?_eq_getElem hlt⟩, t, ?_, rfl, rfl⟩
    simpa [Array.getElem?_eq_getElem hlt] using ht

end SearchState

end MergeGrammar
