import Mathlib.Logic.Relation
import MergeGrammar.Proofs.SpanSeparation

/-!
# Neighbors from either side

A policy is given two spans in no particular order and finds out by itself which one is to lie below
the other. What it asks of a lower and a higher span is a relation with a direction, and its
neighbors are the symmetric closure of that relation. Whatever the spans, the lower one ends before
the higher one starts. So neighbors are separate, and if their stretches contain their heads, they
do not cross and a policy with movement finds all that the strict one finds.
-/

namespace MergeGrammar

namespace Span

/-- The stretch contains the head. -/
structure HoldsHead (span : Span) : Prop where
  low_le : span.low ≤ span.head
  le_high : span.head ≤ span.high

/-- The first stretch starts strictly inside the second one. -/
def StartsInside (a b : Span) : Prop := b.low < a.low ∧ a.low < b.high

variable {a b : Span}

lemma holdsHead_leaf (head : Signal) (free : Bool) : (leaf head free).HoldsHead :=
  ⟨le_rfl, le_rfl⟩

lemma HoldsHead.low_le_high (h : a.HoldsHead) : a.low ≤ a.high := h.low_le.trans h.le_high

/-- Stretches cross if one of them starts strictly inside the other one. -/
lemma overlaps_iff : a.overlaps b = true ↔ Relation.SymmGen StartsInside a b := by
  rw [← Bool.not_eq_false, overlaps_eq_false_iff]
  simp only [not_and_or, Classical.not_imp, not_le]
  exact or_comm

lemma overlaps_comm (a b : Span) : a.overlaps b = b.overlaps a := by
  rw [Bool.eq_iff_iff, overlaps_iff, overlaps_iff, Relation.symmGen_comm]

lemma endsBefore_iff : a.endsBefore b = true ↔ a.head ≠ b.head ∧ a.high + 1 = b.low := by
  simp [endsBefore]

lemma movesTo_iff : a.movesTo b = true ↔
    a.head ≠ b.head ∧ a.head ∈ a.movers ∧ a.high < b.low ∧ a.head ∉ b.usedMovers ∧
      a.head ∉ b.movers := by
  simp only [movesTo, Bool.and_eq_true, bne_iff_ne, decide_eq_true_eq, and_assoc]

end Span

namespace Policy

/-- How the heads of a lower and a higher span are ordered. Only one policy tells the two spans
apart by their heads. -/
def Orders : Policy → Span → Span → Prop
  | moverAware, lower, higher => lower.head < higher.head
  | strict, lower, higher => lower.head ≠ higher.head
  | movementLicensed, lower, higher => lower.head ≠ higher.head

/-- What carries a lower span over a gap to a higher one. -/
def Bridges : Policy → Span → Span → Prop
  | moverAware, lower, higher =>
    (lower.head ∈ lower.movers ∨ higher.head ∈ lower.movers) ∧
      ∀ s ∈ lower.movers, s ∉ higher.movers
  | strict, _, _ => False
  | movementLicensed, lower, higher =>
    lower.head ∈ lower.movers ∧ lower.head ∉ higher.usedMovers ∧ lower.head ∉ higher.movers

/-- A lower span comes up to a higher one: it ends right before that one starts, or something
carries it over the gap between them. -/
structure Reaches (policy : Policy) (lower higher : Span) : Prop where
  ordered : policy.Orders lower higher
  below : lower.high < higher.low
  close : lower.high + 1 = higher.low ∨ policy.Bridges lower higher

variable {policy : Policy} {a b : Span}

lemma Orders.head_ne (h : policy.Orders a b) : a.head ≠ b.head := by
  cases policy with
  | moverAware => exact h.ne
  | strict => exact h
  | movementLicensed => exact h

lemma Orders.of_lt (h : a.head < b.head) : policy.Orders a b := by
  cases policy with
  | moverAware => exact h
  | strict => exact h.ne
  | movementLicensed => exact h.ne

/-- Every policy lets a span reach what starts right after it, if it accepts the order of the
heads. -/
lemma Reaches.of_meets (ordered : policy.Orders a b) (meets : a.high + 1 = b.low) :
    policy.Reaches a b :=
  ⟨ordered, Nat.lt_of_succ_le meets.le, Or.inl meets⟩

lemma Reaches.meets (h : strict.Reaches a b) : a.high + 1 = b.low := h.close.resolve_right id

/-- A stretch that holds its head and lies below another such stretch has the lower head. -/
lemma Reaches.head_lt (h : policy.Reaches a b) (ha : a.HoldsHead) (hb : b.HoldsHead) :
    a.head < b.head :=
  ha.le_high.trans_lt (h.below.trans_le hb.low_le)

/-- If the stretches hold their heads, only what bridges a gap depends on the policy. -/
lemma Reaches.exchange {other : Policy} (h : policy.Reaches a b) (ha : a.HoldsHead)
    (hb : b.HoldsHead) (bridges : policy.Bridges a b → other.Bridges a b) : other.Reaches a b :=
  ⟨.of_lt (h.head_lt ha hb), h.below, h.close.imp_right bridges⟩

lemma strict_reaches_iff : strict.Reaches a b ↔ a.endsBefore b = true := by
  rw [Span.endsBefore_iff]
  constructor
  · intro h
    exact ⟨h.ordered, h.meets⟩
  · rintro ⟨hne, meets⟩
    exact .of_meets hne meets

lemma movementLicensed_reaches_iff :
    movementLicensed.Reaches a b ↔ a.endsBefore b = true ∨ a.movesTo b = true := by
  rw [Span.endsBefore_iff, Span.movesTo_iff]
  constructor
  · rintro ⟨hne, below, meets | ⟨mover, unseen⟩⟩
    · exact Or.inl ⟨hne, meets⟩
    · exact Or.inr ⟨hne, mover, below, unseen⟩
  · rintro (⟨hne, meets⟩ | ⟨hne, mover, below, unseen⟩)
    · exact .of_meets hne meets
    · exact ⟨hne, below, Or.inr ⟨mover, unseen⟩⟩

lemma moverAware_reaches_iff (hlt : a.head < b.head) :
    moverAware.Reaches a b ↔ contiguousOrMoving a b = true := by
  rw [contiguousOrMoving, if_neg hlt.ne]
  simp only [if_pos hlt, Bool.or_eq_true, Bool.and_eq_true, beq_iff_eq, decide_eq_true_eq,
    SignalSet.isDisjoint_iff]
  constructor
  · rintro ⟨-, below, meets | ⟨mover, disjoint⟩⟩
    · exact Or.inl meets
    · exact Or.inr ⟨⟨mover, below⟩, disjoint⟩
  · rintro (meets | ⟨⟨mover, below⟩, disjoint⟩)
    · exact .of_meets hlt meets
    · exact ⟨hlt, below, Or.inr ⟨mover, disjoint⟩⟩

lemma contiguousOrMoving_comm (a b : Span) : contiguousOrMoving a b = contiguousOrMoving b a := by
  unfold contiguousOrMoving
  rcases Nat.lt_trichotomy a.head b.head with hlt | heq | hlt
  · rw [if_neg hlt.ne, if_neg hlt.ne']
    simp only [if_pos hlt, if_neg hlt.asymm]
    rw [Bool.or_comm (decide (a.head ∈ a.movers))]
  · rw [if_pos heq, if_pos heq.symm]
  · rw [if_neg hlt.ne, if_neg hlt.ne']
    simp only [if_pos hlt, if_neg hlt.asymm]
    rw [Bool.or_comm (decide (a.head ∈ b.movers))]

lemma contiguousOrMoving_eq_true_iff :
    contiguousOrMoving a b = true ↔ Relation.SymmGen moverAware.Reaches a b := by
  -- Of two spans only the one with the lower head can reach the other one.
  have back : ∀ {x y : Span}, x.head ≤ y.head → ¬moverAware.Reaches y x := fun hle h =>
    absurd h.ordered hle.not_gt
  rcases Nat.lt_trichotomy a.head b.head with hlt | heq | hlt
  · rw [← moverAware_reaches_iff hlt]
    exact (or_iff_left (back hlt.le)).symm
  · have hfalse : contiguousOrMoving a b = false := if_pos heq
    rw [hfalse]
    exact iff_of_false Bool.false_ne_true (not_or.2 ⟨back heq.ge, back heq.le⟩)
  · rw [contiguousOrMoving_comm, ← moverAware_reaches_iff hlt]
    exact (or_iff_right (back hlt.le)).symm

/-- Two spans are neighbors if one of them reaches the other one. -/
lemma areNeighbors_iff (policy : Policy) :
    policy.areNeighbors a b = true ↔ Relation.SymmGen policy.Reaches a b := by
  cases policy with
  | moverAware => exact contiguousOrMoving_eq_true_iff
  | strict =>
    rw [areNeighbors, contiguous, Bool.or_eq_true, ← strict_reaches_iff, ← strict_reaches_iff]
    rfl
  | movementLicensed =>
    change _ ↔ movementLicensed.Reaches a b ∨ movementLicensed.Reaches b a
    rw [movementLicensed_reaches_iff, movementLicensed_reaches_iff]
    simp only [areNeighbors, contiguous, Bool.or_eq_true]
    rw [or_assoc, or_or_or_comm]

lemma areNeighbors_comm (policy : Policy) (a b : Span) :
    policy.areNeighbors a b = policy.areNeighbors b a := by
  rw [Bool.eq_iff_iff, areNeighbors_iff, areNeighbors_iff, Relation.symmGen_comm]

/-- Policies that bridge the same gaps between two spans agree on them. -/
lemma areNeighbors_congr {other : Policy} (ha : a.HoldsHead) (hb : b.HoldsHead)
    (bridges : policy.Bridges a b ↔ other.Bridges a b)
    (bridges' : policy.Bridges b a ↔ other.Bridges b a) :
    policy.areNeighbors a b = other.areNeighbors a b := by
  rw [Bool.eq_iff_iff, areNeighbors_iff, areNeighbors_iff]
  exact or_congr ⟨fun h => h.exchange ha hb bridges.1, fun h => h.exchange ha hb bridges.2⟩
    ⟨fun h => h.exchange hb ha bridges'.1, fun h => h.exchange hb ha bridges'.2⟩

lemma head_ne_of_areNeighbors (h : policy.areNeighbors a b = true) : a.head ≠ b.head := by
  rcases (areNeighbors_iff policy).1 h with h | h
  · exact h.ordered.head_ne
  · exact h.ordered.head_ne.symm

lemma separate_of_areNeighbors (h : policy.areNeighbors a b = true) : a.Separate b :=
  ((areNeighbors_iff policy).1 h).imp Reaches.below Reaches.below

lemma not_overlaps_of_areNeighbors (ha : a.HoldsHead) (hb : b.HoldsHead)
    (h : policy.areNeighbors a b = true) : a.overlaps b = false :=
  (separate_of_areNeighbors h).not_overlaps ha.low_le_high hb.low_le_high

/-- What the strict policy accepts is accepted by every policy that accepts the order of the
heads. -/
lemma areNeighbors_of_strict (h : strict.areNeighbors a b = true)
    (ordered : strict.Reaches a b → policy.Orders a b)
    (ordered' : strict.Reaches b a → policy.Orders b a) : policy.areNeighbors a b = true := by
  rw [areNeighbors_iff] at h ⊢
  rcases h with h | h
  · exact Or.inl (.of_meets (ordered h) h.meets)
  · exact Or.inr (.of_meets (ordered' h) h.meets)

lemma movementLicensed_of_strict (h : strict.areNeighbors a b = true) :
    movementLicensed.areNeighbors a b = true :=
  areNeighbors_of_strict h Reaches.ordered Reaches.ordered

lemma moverAware_of_strict (ha : a.HoldsHead) (hb : b.HoldsHead)
    (h : strict.areNeighbors a b = true) : moverAware.areNeighbors a b = true :=
  areNeighbors_of_strict h (fun reaches => reaches.head_lt ha hb)
    (fun reaches => reaches.head_lt hb ha)

/-- Heads outside their stretches: the strict policy goes by the stretches and the mover-aware one
by the heads, and an empty stretch can start inside its neighbor. -/
example : strict.areNeighbors ⟨9, 5, 2, ∅, ∅⟩ ⟨3, 3, 7, ∅, ∅⟩ = true ∧
    moverAware.areNeighbors ⟨9, 5, 2, ∅, ∅⟩ ⟨3, 3, 7, ∅, ∅⟩ = false ∧
    Span.overlaps ⟨9, 5, 2, ∅, ∅⟩ ⟨3, 3, 7, ∅, ∅⟩ = true := by decide

/-- Which of two spans is named first makes no difference, neither to any policy nor to whether
their stretches cross, and this for all spans, also for those whose stretches are empty or do not
contain their heads. Spans with the same head are never neighbors. The movement-licensed policy
accepts all that the strict one accepts. If both stretches contain their heads, the mover-aware
policy accepts it as well, and the stretches of neighbors under any policy do not cross. -/
theorem neighbors_symmetric (a b : Span) :
    (∀ policy : Policy,
      (policy.areNeighbors a b = true ↔ Relation.SymmGen policy.Reaches a b) ∧
      policy.areNeighbors a b = policy.areNeighbors b a ∧
      (a.head = b.head → policy.areNeighbors a b = false)) ∧
    (a.overlaps b = true ↔ Relation.SymmGen Span.StartsInside a b) ∧
    a.overlaps b = b.overlaps a ∧
    (strict.areNeighbors a b = true → movementLicensed.areNeighbors a b = true) ∧
    (a.HoldsHead → b.HoldsHead →
      (strict.areNeighbors a b = true → moverAware.areNeighbors a b = true) ∧
      ∀ policy : Policy, policy.areNeighbors a b = true → a.overlaps b = false) := by
  refine ⟨fun policy => ⟨areNeighbors_iff policy, areNeighbors_comm policy a b, fun heq => ?_⟩,
    Span.overlaps_iff, Span.overlaps_comm a b, movementLicensed_of_strict, fun ha hb => ?_⟩
  · rw [← Bool.not_eq_true]
    exact fun h => head_ne_of_areNeighbors h heq
  · exact ⟨moverAware_of_strict ha hb, fun _ => not_overlaps_of_areNeighbors ha hb⟩

/-- A noun with a free modifier before it. -/
def modifiedNoun : Span := (Span.leaf 2 false).withAdjunct (.leaf 1 true)

lemma modifiedNoun_holdsHead : modifiedNoun.HoldsHead := ⟨by decide, by decide⟩

/-- The modified noun and the word right after it are neighbors under all policies. It has become a
mover, and the two policies with movement let it reach over that word to the next one, from either
side. The noun alone has the same head and is no neighbor. -/
theorem modifiedNoun_neighbors :
    (strict.areNeighbors modifiedNoun (.leaf 3 false) = true ∧
      movementLicensed.areNeighbors modifiedNoun (.leaf 3 false) = true ∧
      moverAware.areNeighbors modifiedNoun (.leaf 3 false) = true ∧
      modifiedNoun.overlaps (.leaf 3 false) = false) ∧
    (strict.areNeighbors modifiedNoun (.leaf 4 false) = false ∧
      moverAware.areNeighbors modifiedNoun (.leaf 4 false) = true ∧
      moverAware.areNeighbors (.leaf 4 false) modifiedNoun = true ∧
      movementLicensed.areNeighbors (.leaf 4 false) modifiedNoun = true ∧
      modifiedNoun.overlaps (.leaf 4 false) = false) ∧
    ((Span.leaf 2 false).head = modifiedNoun.head ∧
      moverAware.areNeighbors (.leaf 2 false) modifiedNoun = false) := by
  obtain ⟨-, -, -, licensed, held⟩ := neighbors_symmetric modifiedNoun (.leaf 3 false)
  obtain ⟨symmetric, -, -, -, far⟩ := neighbors_symmetric modifiedNoun (.leaf 4 false)
  obtain ⟨alone, -⟩ := neighbors_symmetric (.leaf 2 false) modifiedNoun
  obtain ⟨aware, apart⟩ := held modifiedNoun_holdsHead (Span.holdsHead_leaf 3 false)
  obtain ⟨-, gap⟩ := far modifiedNoun_holdsHead (Span.holdsHead_leaf 4 false)
  have adjacent : strict.areNeighbors modifiedNoun (.leaf 3 false) = true := by decide
  have reaching : moverAware.areNeighbors modifiedNoun (.leaf 4 false) = true := by decide
  have licensing : movementLicensed.areNeighbors modifiedNoun (.leaf 4 false) = true := by decide
  refine ⟨⟨adjacent, licensed adjacent, aware adjacent, apart strict adjacent⟩,
    ⟨by decide, reaching, ?_, ?_, gap moverAware reaching⟩, rfl, (alone moverAware).2.2 rfl⟩
  · rw [← (symmetric moverAware).2.1]
    exact reaching
  · rw [← (symmetric movementLicensed).2.1]
    exact licensing

end Policy

lemma Route.Fits.holdsHead {route : Route} (h : route.Fits) : route.span.HoldsHead :=
  ⟨h.low_le, h.le_high⟩

/-- In a search, neighbors under any policy conflict only over a common signal. -/
theorem SearchState.AllBuilt.conflict_iff_of_areNeighbors {graph : Graph} {options : Options}
    {read : Array WordPart} {state : SearchState} (h : state.AllBuilt graph options read)
    {policy : Policy} {base sub : RouteId} (hbase : base < state.arena.size)
    (hsub : sub < state.arena.size)
    (neighbors : policy.areNeighbors (state.arena.route base).span
      (state.arena.route sub).span = true) :
    Climb.conflict (state.arena.route base) (state.arena.route sub) = true ↔
      ∃ s ∈ (state.arena.route base).signals, s ∈ (state.arena.route sub).signals := by
  have apart := Policy.not_overlaps_of_areNeighbors (h.fits hbase).holdsHead
    (h.fits hsub).holdsHead neighbors
  rw [← Bool.not_eq_false, Climb.conflict_eq_false]
  simp only [apart, true_and, not_forall, not_not, exists_prop]

end MergeGrammar
