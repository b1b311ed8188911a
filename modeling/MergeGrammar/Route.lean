import MergeGrammar.Reading
import MergeGrammar.Span

/-!
# Routes

A route is a candidate derivation rooted at a word part. It points to its components by their
numbers in the arena, where a component always stands before the routes that are built from it.
Routes are never changed: attaching a component gives a new route.
-/

namespace MergeGrammar

abbrev RouteId := Nat

def RouteId.text (id : RouteId) : String := "#" ++ toString id

inductive Relation where
  | argument
  | adjunction
  | part
deriving DecidableEq, Repr

def Relation.name : Relation → String
  | argument => "argument"
  | adjunction => "adjunction"
  | part => "part"

/-- A candidate derivation rooted at a word part. -/
structure Route where
  root : WordPart
  /-- The remnant of the root's own word. -/
  part : Option RouteId
  arg : Option RouteId
  /-- Adjuncts in the order of their attachment. -/
  adjuncts : List RouteId
  span : Span
  /-- Every signal of the route, consumed movers included. -/
  signals : SignalSet
  /-- The number of combinations the route is made of. -/
  weight : Nat
deriving DecidableEq, Repr

namespace Route

instance : Inhabited Route := ⟨⟨default, none, none, [], default, ∅, 0⟩⟩

def leaf (root : WordPart) (free : Bool) : Route where
  root
  part := none
  arg := none
  adjuncts := []
  span := .leaf root.signal free
  signals := .singleton root.signal
  weight := 0

/-- A route with the component `sub`, whose number is `id`, attached to it. -/
def extend (base : Route) (id : RouteId) (sub : Route) (relation : Relation) : Route :=
  let joined :=
    { base with
      signals := base.signals.union sub.signals
      weight := base.weight + sub.weight + 1 }
  match relation with
  | .part => { joined with part := some id, span := base.span.withPart sub.span }
  | .argument => { joined with arg := some id, span := base.span.withArg sub.span }
  | .adjunction =>
    { joined with adjuncts := base.adjuncts ++ [id], span := base.span.withAdjunct sub.span }

def size (route : Route) : Nat := route.signals.size

def slotCode : Option RouteId → Nat
  | none => 0
  | some id => id + 1

/-- The root signal and the components of a route as a list of numbers. Two routes with the same
key are the same derivation. -/
def key (route : Route) : List Nat :=
  route.root.signal :: slotCode route.part :: slotCode route.arg :: route.adjuncts

theorem slotCode_injective {a b : Option RouteId} (h : slotCode a = slotCode b) : a = b := by
  cases a <;> cases b <;> simp_all [slotCode]

theorem key_eq_iff {a b : Route} : a.key = b.key ↔
    a.root.signal = b.root.signal ∧ a.part = b.part ∧ a.arg = b.arg ∧ a.adjuncts = b.adjuncts := by
  simp only [key, List.cons.injEq]
  exact ⟨fun ⟨h, hp, ha, hs⟩ => ⟨h, slotCode_injective hp, slotCode_injective ha, hs⟩,
    fun ⟨h, hp, ha, hs⟩ => ⟨h, by rw [hp], by rw [ha], hs⟩⟩

end Route

/-- The routes of a sentence, numbered from zero in the order of their creation. -/
structure Arena where
  routes : Array Route
deriving DecidableEq, Repr

namespace Arena

def empty : Arena := ⟨#[]⟩

def size (arena : Arena) : Nat := arena.routes.size

def isEmpty (arena : Arena) : Bool := arena.routes.isEmpty

def push (arena : Arena) (route : Route) : Arena := ⟨arena.routes.push route⟩

def get? (arena : Arena) (id : RouteId) : Option Route := arena.routes[id]?

/-- The route of a number that is in use. -/
def route (arena : Arena) (id : RouteId) : Route := arena.routes.getD id default

@[simp] theorem size_empty : empty.size = 0 := rfl

@[simp] theorem size_push (arena : Arena) (route : Route) :
    (arena.push route).size = arena.size + 1 := Array.size_push ..

theorem route_push_of_lt {arena : Arena} {id : RouteId} (h : id < arena.size) (route : Route) :
    (arena.push route).route id = arena.route id := by
  have hne : id ≠ arena.routes.size := Nat.ne_of_lt h
  simp only [Arena.route, push, Array.getD_eq_getD_getElem?, Array.getElem?_push, if_neg hne]

@[simp] theorem route_push_size (arena : Arena) (route : Route) :
    (arena.push route).route arena.size = route := by
  simp [Arena.route, push, size, Array.getD_eq_getD_getElem?]

end Arena

end MergeGrammar
