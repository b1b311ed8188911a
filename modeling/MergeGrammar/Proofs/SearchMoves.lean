import Mathlib.Data.Nat.Basic
import Mathlib.Logic.Relation
import Mathlib.Order.Basic
import Mathlib.Tactic.Lemma
import MergeGrammar.Session

/-!
# Moves of the search

The search changes its tables in two ways: it adds a candidate or it drops the key of one. A
candidate is the leaf of a word part that has been read, or a route attached to another one to which
it may be attached. What one move preserves holds after any number of them.
-/

namespace MergeGrammar

/-- The word part is the one that was read at its signal. -/
def WordPart.StandsIn (part : WordPart) (read : Array WordPart) : Prop :=
  0 < part.signal ∧ read[part.signal - 1]? = some part

/-- The far ends of the edges that leave a word part as a head or as a host. -/
def PartState.below (part : PartState) : MergeKind → List Signal
  | .merge => part.argEdges
  | .pairMerge => part.adjunctions

/-- The far ends of the edges that leave a word part as an argument or as an adjunct. -/
def PartState.above (part : PartState) : MergeKind → List Signal
  | .merge => part.headEdges
  | .pairMerge => part.adjunctTo

namespace SearchState

variable (graph : Graph) (options : Options) (read : Array WordPart) (state : SearchState)

def attach (base sub : RouteId) (relation : Relation) : Route :=
  (state.arena.route base).extend sub (state.arena.route sub) relation

/-- What a relation asks of two routes besides room: an edge or a place in the same word, a free
slot, adjacency and agreement. -/
def Licensed (base sub : RouteId) : Relation → Prop
  | .argument =>
    let b := state.arena.route base
    let o := state.arena.route sub
    (b.root.signal, o.root.signal) ∈ state.edges PartState.argEdges ∧ b.arg = none ∧
      o.span.head ∉ b.span.usedMovers ∧ options.policy.areNeighbors o.span b.span = true
  | .adjunction =>
    let b := state.arena.route base
    let o := state.arena.route sub
    (b.root.signal, o.root.signal) ∈ state.edges PartState.adjunctions ∧
      b.root.signal ∉ o.signals ∧ options.policy.areNeighbors o.span b.span = true ∧
      (options.checkAgreement = true →
        (Climb.start state).adjunctAgrees ⟨graph, options, false⟩ sub base = true)
  | .part =>
    let b := state.arena.route base
    let o := state.arena.route sub
    (graph.entry o.root.entry).isFirstPart = false ∧ b.root.signal + 1 = o.root.signal ∧
      b.root.signal ∉ o.signals ∧ b.part = none

/-- The stored route `sub` may be attached to the stored route `base`. -/
structure Attachable (base sub : RouteId) (relation : Relation) : Prop where
  base_lt : base < state.arena.size
  sub_lt : sub < state.arena.size
  disjoint : ∀ x ∈ (state.arena.route base).signals, x ∉ (state.arena.route sub).signals
  apart : (state.arena.route base).span.overlaps (state.arena.route sub).span = false
  licensed : state.Licensed graph options base sub relation

/-- The routes that a search may come to consider. -/
inductive Candidate : Route → Prop where
  | leaf {part : WordPart} (standing : part.StandsIn read) :
    Candidate (.leaf part (graph.entry part.entry).isFree)
  | attach {base sub : RouteId} {relation : Relation}
    (attachable : state.Attachable graph options base sub relation) :
    Candidate (state.attach base sub relation)

/-- A candidate that is new and within the limits. -/
structure Admits (route : Route) : Prop where
  candidate : state.Candidate graph options read route
  unknown : state.isKnown route.key = false
  room : state.arena.size < options.maxRoutes
  uncrowded : state.profileCount route.span < options.profileCap

/-- A candidate that is new and beyond a limit. -/
structure Refuses (route : Route) : Prop where
  candidate : state.Candidate graph options read route
  unknown : state.isKnown route.key = false
  full : options.maxRoutes ≤ state.arena.size ∨
    options.profileCap ≤ state.profileCount route.span

/-- One change of the tables. -/
inductive Move : SearchState → Prop where
  | add {route : Route} (admits : state.Admits graph options read route) : Move (state.add route)
  | drop {route : Route} (refuses : state.Refuses graph options read route) :
    Move (state.drop route.key)

end SearchState

/-- One change of the tables with its count, or none. -/
inductive Climb.Move (graph : Graph) (options : Options) (read : Array WordPart) (climb : Climb) :
    Climb → Prop where
  | idle {next : Climb} (state : next.state = climb.state) (added : next.added = climb.added)
    (capped : next.capped = climb.capped) : Move graph options read climb next
  | add {route : Route} {next : Climb} (admits : climb.state.Admits graph options read route)
    (state : next.state = climb.state.add route)
    (added : next.added = climb.added.push climb.state.arena.size)
    (capped : next.capped = climb.capped) : Move graph options read climb next
  | drop {route : Route} {next : Climb} (refuses : climb.state.Refuses graph options read route)
    (state : next.state = climb.state.drop route.key) (added : next.added = climb.added)
    (capped : next.capped = climb.capped + 1) : Move graph options read climb next

abbrev Climb.Moves (graph : Graph) (options : Options) (read : Array WordPart) :
    Climb → Climb → Prop :=
  Relation.ReflTransGen (Climb.Move graph options read)

variable {graph : Graph} {options : Options} {read : Array WordPart}

lemma Climb.Moves.trans {a b c : Climb} (h : a.Moves graph options read b)
    (h' : b.Moves graph options read c) : a.Moves graph options read c :=
  Relation.ReflTransGen.trans h h'

/-- What every change of the tables preserves holds after any number of moves. -/
lemma Climb.Moves.preserves {P : SearchState → Prop} {climb next : Climb}
    (h : Climb.Moves graph options read climb next)
    (step : ∀ {s s' : SearchState}, P s → s.Move graph options read s' → P s')
    (start : P climb.state) : P next.state := by
  induction h with
  | refl => exact start
  | tail _ move ih =>
    cases move with
    | idle state => exact state ▸ ih
    | add admits state => exact state ▸ step ih (.add admits)
    | drop refuses state => exact state ▸ step ih (.drop refuses)

/-! ### What moves leave alone -/

namespace SearchState

lemma arena_add (state : SearchState) (route : Route) :
    (state.add route).arena = state.arena.push route := rfl

lemma part_add (state : SearchState) (route : Route) (s : Signal) :
    (state.add route).part s = (state.modifyPart route.root.signal fun p =>
      { p with routesDown := p.routesDown.push state.arena.size }).part s := rfl

lemma below_part_add (state : SearchState) (route : Route) (s : Signal) (kind : MergeKind) :
    ((state.add route).part s).below kind = (state.part s).below kind := by
  rw [part_add]
  rcases state.part_modifyPart_eq_or route.root.signal s _ with h | h
  · rw [h]
  · rw [h]
    cases kind <;> rfl

lemma above_part_add (state : SearchState) (route : Route) (s : Signal) (kind : MergeKind) :
    ((state.add route).part s).above kind = (state.part s).above kind := by
  rw [part_add]
  rcases state.part_modifyPart_eq_or route.root.signal s _ with h | h
  · rw [h]
  · rw [h]
    cases kind <;> rfl

lemma isKnown_add (state : SearchState) (route : Route) (key : List Nat) :
    (state.add route).isKnown key = (route.key == key || state.isKnown key) := by
  simp only [isKnown, add, Std.TreeSet.contains_insert, Bool.or_assoc]
  congr 1
  rw [Bool.eq_iff_iff]
  simp

lemma isKnown_drop (state : SearchState) (dropped key : List Nat) :
    (state.drop dropped).isKnown key = (dropped == key || state.isKnown key) := by
  simp only [isKnown, drop, Std.TreeSet.contains_insert]
  rw [Bool.eq_iff_iff]
  simp [or_left_comm]

/-- A later state of the tables has the edges of the earlier one and all of its routes, and knows all
of its keys. If it has no further route, only dropped keys were added. -/
structure Extends (earlier later : SearchState) : Prop where
  size_le : earlier.arena.size ≤ later.arena.size
  route_eq : ∀ id, id < earlier.arena.size → later.arena.route id = earlier.arena.route id
  size_parts : later.parts.size = earlier.parts.size
  below_eq : ∀ kind s, (later.part s).below kind = (earlier.part s).below kind
  above_eq : ∀ kind s, (later.part s).above kind = (earlier.part s).above kind
  known : ∀ key, earlier.isKnown key = true → later.isKnown key = true
  still : later.arena.size = earlier.arena.size →
    later.arena = earlier.arena ∧ later.parts = earlier.parts

namespace Extends

lemma refl (state : SearchState) : state.Extends state :=
  ⟨le_rfl, fun _ _ => rfl, rfl, fun _ _ => rfl, fun _ _ => rfl, fun _ h => h,
    fun _ => ⟨rfl, rfl⟩⟩

lemma trans {a b c : SearchState} (h : a.Extends b) (h' : b.Extends c) : a.Extends c where
  size_le := h.size_le.trans h'.size_le
  route_eq id hid := (h'.route_eq id (hid.trans_le h.size_le)).trans (h.route_eq id hid)
  size_parts := h'.size_parts.trans h.size_parts
  below_eq kind s := (h'.below_eq kind s).trans (h.below_eq kind s)
  above_eq kind s := (h'.above_eq kind s).trans (h.above_eq kind s)
  known key hkey := h'.known key (h.known key hkey)
  still hsize := by
    have hb : b.arena.size = a.arena.size :=
      le_antisymm (h'.size_le.trans hsize.le) h.size_le
    obtain ⟨harena, hparts⟩ := h.still hb
    obtain ⟨harena', hparts'⟩ := h'.still (hsize.trans hb.symm)
    exact ⟨harena'.trans harena, hparts'.trans hparts⟩

end Extends

lemma extends_add (state : SearchState) (route : Route) : state.Extends (state.add route) where
  size_le := by simp [arena_add]
  route_eq _ hid := Arena.route_push_of_lt hid route
  size_parts := Array.size_modify
  below_eq kind s := state.below_part_add route s kind
  above_eq kind s := state.above_part_add route s kind
  known key hkey := by simp [isKnown_add, hkey]
  still hsize := by simp [arena_add] at hsize

lemma extends_drop (state : SearchState) (key : List Nat) : state.Extends (state.drop key) where
  size_le := le_rfl
  route_eq _ _ := rfl
  size_parts := rfl
  below_eq _ _ := rfl
  above_eq _ _ := rfl
  known other hother := by simp [isKnown_drop, hother]
  still _ := ⟨rfl, rfl⟩

lemma Extends.mem_edges {earlier later : SearchState} (h : earlier.Extends later) {kind : MergeKind}
    {s t : Signal} : (s, t) ∈ later.edges (·.below kind) ↔ (s, t) ∈ earlier.edges (·.below kind) := by
  rw [SearchState.mem_edges, SearchState.mem_edges, h.size_parts, h.below_eq]

lemma Move.extends {state next : SearchState} (move : state.Move graph options read next) :
    state.Extends next := by
  cases move with
  | add => exact extends_add _ _
  | drop => exact extends_drop _ _

end SearchState

lemma Climb.Moves.extends {climb next : Climb} (h : Climb.Moves graph options read climb next) :
    climb.state.Extends next.state :=
  h.preserves (fun hs move => hs.trans move.extends) (.refl _)

end MergeGrammar
