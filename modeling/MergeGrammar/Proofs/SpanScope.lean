import Mathlib.Order.Lattice
import Mathlib.Tactic.Lemma
import Mathlib.Tactic.Tauto
import MergeGrammar.Route

/-!
# Scope of spans

What an attachment does to the movers of a span, and what follows for the span of a route: its
stretch contains its head, and its movers are among its signals.
-/

namespace MergeGrammar

namespace Span

variable {span other : Span} {x : Signal}

/-- Whether an argument is consumed as a mover when it is attached. -/
def Consumes (span arg : Span) : Prop :=
  arg.head ∈ span.movers ∧ arg.head ≠ span.head ∧ arg.head ∉ arg.usedMovers ∨
    arg.head ∈ arg.movers

instance : Decidable (span.Consumes other) :=
  inferInstanceAs (Decidable (other.head ∈ span.movers ∧ other.head ≠ span.head ∧
    other.head ∉ other.usedMovers ∨ other.head ∈ other.movers))

lemma mem_usedMovers_withPart : x ∈ (span.withPart other).usedMovers ↔
    x ∈ span.usedMovers ∨ x ∈ other.usedMovers :=
  SignalSet.mem_union

lemma mem_movers_withPart : x ∈ (span.withPart other).movers ↔
    (x ∈ span.movers ∨ x ∈ other.movers) ∧ x ∉ span.usedMovers ∧ x ∉ other.usedMovers := by
  simp [withPart, settled]

lemma mem_usedMovers_withAdjunct : x ∈ (span.withAdjunct other).usedMovers ↔
    x ∈ span.usedMovers ∨ x ∈ other.usedMovers :=
  SignalSet.mem_union

lemma mem_movers_withAdjunct : x ∈ (span.withAdjunct other).movers ↔
    (x ∈ span.movers ∨ x = span.head ∧ other.movers.isEmpty = false) ∧
      x ∉ span.usedMovers ∧ x ∉ other.usedMovers := by
  cases hempty : other.movers.isEmpty with
  | true => simp [withAdjunct, settled, hempty]
  | false => simp [withAdjunct, settled, hempty, or_comm]

lemma consumes_iff : (other.head ∈ (span.movers.erase span.head).diff other.usedMovers ∨
    other.head ∈ other.movers) ↔ span.Consumes other := by
  simp [Consumes, and_assoc]

lemma mem_insert_if {c : Prop} [Decidable c] {set : SignalSet} {s : Signal} :
    x ∈ (if c then set.insert s else set) ↔ x ∈ set ∨ c ∧ x = s := by
  split
  · next hc => simp [hc, or_comm]
  · next hc => simp [hc]

lemma mem_usedMovers_withArg : x ∈ (span.withArg other).usedMovers ↔
    x ∈ span.usedMovers ∨ x ∈ other.usedMovers ∨ span.head ∈ span.movers ∧ x = span.head ∨
      span.Consumes other ∧ x = other.head := by
  simp only [withArg, settled, consumes_iff, mem_insert_if, SignalSet.mem_union]
  tauto

lemma mem_movers_withArg : x ∈ (span.withArg other).movers ↔
    (x ∈ span.movers ∧ x ≠ span.head ∨ x ∈ other.movers) ∧ x ≠ other.head ∧
      x ∉ (span.withArg other).usedMovers := by
  have hused : x ∈ other.usedMovers → x ∈ (span.withArg other).usedMovers := fun h =>
    mem_usedMovers_withArg.2 (Or.inr (Or.inl h))
  have hmovers : x ∈ (span.withArg other).movers ↔
      ((x ∈ span.movers ∧ x ≠ span.head) ∧ x ∉ other.usedMovers ∧ x ≠ other.head ∨
        x ∈ other.movers ∧ x ≠ other.head) ∧ x ∉ (span.withArg other).usedMovers := by
    simp [withArg, settled, and_assoc]
  rw [hmovers]
  tauto

lemma low_withArg : (span.withArg other).low =
    if span.Consumes other then span.low else min span.low other.low := by
  simp only [withArg, settled, consumes_iff]

end Span

namespace Route

@[simp] lemma root_extend (base sub : Route) (id : RouteId) (relation : Relation) :
    (base.extend id sub relation).root = base.root := by
  cases relation <;> rfl

@[simp] lemma signals_extend (base sub : Route) (id : RouteId) (relation : Relation) :
    (base.extend id sub relation).signals = base.signals.union sub.signals := by
  cases relation <;> rfl

lemma part_extend (base sub : Route) (id : RouteId) (relation : Relation) :
    (base.extend id sub relation).part = if relation = .part then some id else base.part := by
  cases relation <;> rfl

lemma arg_extend (base sub : Route) (id : RouteId) (relation : Relation) :
    (base.extend id sub relation).arg = if relation = .argument then some id else base.arg := by
  cases relation <;> rfl

lemma adjuncts_extend (base sub : Route) (id : RouteId) (relation : Relation) :
    (base.extend id sub relation).adjuncts =
      if relation = .adjunction then base.adjuncts ++ [id] else base.adjuncts := by
  cases relation <;> rfl

@[simp] lemma head_extend (base sub : Route) (id : RouteId) (relation : Relation) :
    (base.extend id sub relation).span.head = base.span.head := by
  cases relation <;> rfl

@[simp] lemma high_extend (base sub : Route) (id : RouteId) (relation : Relation) :
    (base.extend id sub relation).span.high = max base.span.high sub.span.high := by
  cases relation <;> rfl

lemma low_extend_le (base sub : Route) (id : RouteId) (relation : Relation) :
    (base.extend id sub relation).span.low ≤ base.span.low := by
  cases relation with
  | argument =>
    rw [Route.extend, Span.low_withArg]
    split
    · exact le_rfl
    · exact min_le_left _ _
  | adjunction => exact min_le_left _ _
  | part => exact min_le_left _ _

/-- The span of a route fits its root and its signals. -/
structure Fits (route : Route) : Prop where
  head_eq : route.span.head = route.root.signal
  root_mem : route.root.signal ∈ route.signals
  low_le : route.span.low ≤ route.span.head
  le_high : route.span.head ≤ route.span.high
  movers_mem : ∀ x ∈ route.span.movers, x ∈ route.signals
  used_mem : ∀ x ∈ route.span.usedMovers, x ∈ route.signals
  unused : ∀ x ∈ route.span.movers, x ∉ route.span.usedMovers

lemma fits_leaf (root : WordPart) (free : Bool) : (leaf root free).Fits where
  head_eq := rfl
  root_mem := SignalSet.mem_singleton.2 rfl
  low_le := le_rfl
  le_high := le_rfl
  movers_mem x hx := by
    cases free with
    | true => exact hx
    | false => exact absurd hx (SignalSet.not_mem_empty x)
  used_mem x hx := absurd hx (SignalSet.not_mem_empty x)
  unused x _ := SignalSet.not_mem_empty x

namespace Fits

lemma head_mem {route : Route} (h : route.Fits) : route.span.head ∈ route.signals :=
  h.head_eq ▸ h.root_mem

variable {base sub : Route} (hbase : base.Fits) (hsub : sub.Fits) (id : RouteId)
  (relation : Relation)
include hbase hsub

lemma movers_extend : ∀ x ∈ (base.extend id sub relation).span.movers,
    x ∈ (base.extend id sub relation).signals := by
  intro x hx
  rw [signals_extend, SignalSet.mem_union]
  cases relation with
  | argument =>
    rcases (Span.mem_movers_withArg.1 hx).1 with h | h
    · exact Or.inl (hbase.movers_mem x h.1)
    · exact Or.inr (hsub.movers_mem x h)
  | adjunction =>
    rcases (Span.mem_movers_withAdjunct.1 hx).1 with h | ⟨rfl, -⟩
    · exact Or.inl (hbase.movers_mem x h)
    · exact Or.inl hbase.head_mem
  | part =>
    rcases (Span.mem_movers_withPart.1 hx).1 with h | h
    · exact Or.inl (hbase.movers_mem x h)
    · exact Or.inr (hsub.movers_mem x h)

lemma used_extend : ∀ x ∈ (base.extend id sub relation).span.usedMovers,
    x ∈ (base.extend id sub relation).signals := by
  intro x hx
  rw [signals_extend, SignalSet.mem_union]
  cases relation with
  | argument =>
    rcases Span.mem_usedMovers_withArg.1 hx with h | h | ⟨-, rfl⟩ | ⟨-, rfl⟩
    · exact Or.inl (hbase.used_mem x h)
    · exact Or.inr (hsub.used_mem x h)
    · exact Or.inl hbase.head_mem
    · exact Or.inr hsub.head_mem
  | adjunction =>
    rcases Span.mem_usedMovers_withAdjunct.1 hx with h | h
    · exact Or.inl (hbase.used_mem x h)
    · exact Or.inr (hsub.used_mem x h)
  | part =>
    rcases Span.mem_usedMovers_withPart.1 hx with h | h
    · exact Or.inl (hbase.used_mem x h)
    · exact Or.inr (hsub.used_mem x h)

omit hbase hsub in
lemma unused_extend : ∀ x ∈ (base.extend id sub relation).span.movers,
    x ∉ (base.extend id sub relation).span.usedMovers := by
  intro x hx
  cases relation with
  | argument => exact (Span.mem_movers_withArg.1 hx).2.2
  | adjunction =>
    have h := (Span.mem_movers_withAdjunct.1 hx).2
    exact fun hused => (Span.mem_usedMovers_withAdjunct.1 hused).elim h.1 h.2
  | part =>
    have h := (Span.mem_movers_withPart.1 hx).2
    exact fun hused => (Span.mem_usedMovers_withPart.1 hused).elim h.1 h.2

lemma extend : (base.extend id sub relation).Fits where
  head_eq := by
    rw [head_extend, root_extend]
    exact hbase.head_eq
  root_mem := by
    rw [root_extend, signals_extend, SignalSet.mem_union]
    exact Or.inl hbase.root_mem
  low_le := by
    rw [head_extend]
    exact (low_extend_le base sub id relation).trans hbase.low_le
  le_high := by
    rw [head_extend, high_extend]
    exact hbase.le_high.trans (le_max_left _ _)
  movers_mem := hbase.movers_extend hsub id relation
  used_mem := hbase.used_extend hsub id relation
  unused := unused_extend id relation

end Fits

end Route

end MergeGrammar
