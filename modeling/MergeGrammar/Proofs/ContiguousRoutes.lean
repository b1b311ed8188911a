import MergeGrammar.Proofs.PolicyAgreement
import Mathlib.Order.Bounds.Basic

/-!
# Routes without movers

As long as no word part that has been read is free to move, every route covers a stretch of the
sentence without a gap. An argument or an adjunct is adjacent under every policy. A remnant need not
be, but its root follows the root it is attached to, and two stretches without a common signal that
hold two neighboring signals are adjacent.
-/

namespace MergeGrammar

/-- The route covers its stretch, and nothing in it moves. -/
structure Route.Contiguous (route : Route) : Prop where
  mem_iff : ∀ s, s ∈ route.signals ↔ route.span.low ≤ s ∧ s ≤ route.span.high
  movers : route.span.movers = ∅
  used : route.span.usedMovers = ∅

namespace Route

/-- One of two stretches ends right before the other one starts. -/
def Adjoins (base sub : Route) : Prop :=
  base.span.high + 1 = sub.span.low ∨ sub.span.high + 1 = base.span.low

lemma contiguous_leaf (root : WordPart) : (leaf root false).Contiguous where
  mem_iff s := by
    change s ∈ SignalSet.singleton root.signal ↔ root.signal ≤ s ∧ s ≤ root.signal
    rw [SignalSet.mem_singleton]
    lia
  movers := rfl
  used := rfl

namespace Contiguous

variable {base sub : Route}

lemma isLeast (h : base.Contiguous) (fits : base.Fits) :
    IsLeast {s | s ∈ base.signals} base.span.low :=
  ⟨(h.mem_iff _).2 ⟨le_rfl, fits.low_le.trans fits.le_high⟩, fun s hs => ((h.mem_iff s).1 hs).1⟩

lemma isGreatest (h : base.Contiguous) (fits : base.Fits) :
    IsGreatest {s | s ∈ base.signals} base.span.high :=
  ⟨(h.mem_iff _).2 ⟨fits.low_le.trans fits.le_high, le_rfl⟩, fun s hs => ((h.mem_iff s).1 hs).2⟩

variable (hbase : base.Contiguous) (hsub : sub.Contiguous)
include hbase hsub

/-- Stretches without a common signal that hold neighboring signals are adjacent. -/
lemma adjoins_of_mem (disjoint : ∀ s ∈ base.signals, s ∉ sub.signals) {s : Signal}
    (hs : s ∈ base.signals) (hnext : s + 1 ∈ sub.signals) : base.Adjoins sub := by
  have hnot : s + 1 ∉ base.signals := fun hmem => disjoint _ hmem hnext
  have hnot' : s ∉ sub.signals := disjoint s hs
  rw [hbase.mem_iff] at hs hnot
  rw [hsub.mem_iff] at hnext hnot'
  left
  lia

/-- Without a common signal one stretch ends before the other one starts. -/
lemma separate (fits : base.Fits) (fits' : sub.Fits)
    (disjoint : ∀ s ∈ base.signals, s ∉ sub.signals) : base.span.Separate sub.span := by
  have hlow := disjoint _ (hbase.isLeast fits).1
  have hlow' : sub.span.low ∉ base.signals := fun hmem => disjoint _ hmem (hsub.isLeast fits').1
  rw [hsub.mem_iff] at hlow
  rw [hbase.mem_iff] at hlow'
  unfold Span.Separate
  lia

lemma not_overlaps (fits : base.Fits) (fits' : sub.Fits)
    (disjoint : ∀ s ∈ base.signals, s ∉ sub.signals) : base.span.overlaps sub.span = false :=
  (hbase.separate hsub fits fits' disjoint).not_overlaps fits.holdsHead.low_le_high
    fits'.holdsHead.low_le_high

lemma extend (fits : base.Fits) (fits' : sub.Fits) (adjoins : base.Adjoins sub) (id : RouteId)
    (relation : Relation) : (base.extend id sub relation).Contiguous := by
  have no_mover : ∀ s, s ∉ base.span.movers := fun s => hbase.movers ▸ SignalSet.not_mem_empty s
  have no_mover' : ∀ s, s ∉ sub.span.movers := fun s => hsub.movers ▸ SignalSet.not_mem_empty s
  have no_used : ∀ s, s ∉ base.span.usedMovers := fun s => hbase.used ▸ SignalSet.not_mem_empty s
  have no_used' : ∀ s, s ∉ sub.span.usedMovers := fun s => hsub.used ▸ SignalSet.not_mem_empty s
  have not_consumed : ¬ base.span.Consumes sub.span := fun h =>
    h.elim (fun h => no_mover _ h.1) (no_mover' _)
  have hlow : (base.extend id sub relation).span.low = min base.span.low sub.span.low := by
    cases relation with
    | argument => rw [Route.extend, Span.low_withArg, if_neg not_consumed]
    | adjunction => rfl
    | part => rfl
  have hlh := fits.low_le.trans fits.le_high
  have hlh' := fits'.low_le.trans fits'.le_high
  refine ⟨fun s => ?_, SignalSet.ext fun s => iff_of_false ?_ (SignalSet.not_mem_empty s),
    SignalSet.ext fun s => iff_of_false ?_ (SignalSet.not_mem_empty s)⟩
  · rw [signals_extend, SignalSet.mem_union, hbase.mem_iff, hsub.mem_iff, hlow, high_extend,
      inf_le_iff, le_sup_iff]
    rcases adjoins with heq | heq <;> lia
  · exact unmoved_extend no_mover no_mover' id relation s
  · intro hs
    cases relation with
    | argument =>
      rcases Span.mem_usedMovers_withArg.1 hs with h | h | h | h
      · exact no_used s h
      · exact no_used' s h
      · exact no_mover _ h.1
      · exact not_consumed h.1
    | adjunction => exact (Span.mem_usedMovers_withAdjunct.1 hs).elim (no_used s) (no_used' s)
    | part => exact (Span.mem_usedMovers_withPart.1 hs).elim (no_used s) (no_used' s)

end Contiguous

end Route

namespace SearchState

variable {graph : Graph} {options : Options} {read : Array WordPart} {state : SearchState}

/-- Without free word parts every policy asks for adjacent stretches. -/
lemma AllBuilt.neighbors_iff (h : state.AllBuilt graph options read) (fixed : Fixed graph read)
    {base sub : RouteId} (hbase : base < state.arena.size) (hsub : sub < state.arena.size)
    (disjoint : ∀ s ∈ (state.arena.route base).signals, s ∉ (state.arena.route sub).signals) :
    options.policy.areNeighbors (state.arena.route sub).span (state.arena.route base).span = true ↔
      (state.arena.route base).Adjoins (state.arena.route sub) := by
  have apart : ∀ s ∈ (state.arena.route sub).signals, s ∉ (state.arena.route base).signals :=
    fun s hs hs' => disjoint s hs' hs
  have hne := Policy.head_ne (h.fits hbase) (h.fits hsub) disjoint
  rw [← Policy.interchangeable_strict fixed options.policy state h sub base hsub hbase apart]
  simp [Policy.areNeighbors, Policy.contiguous, Span.endsBefore, Route.Adjoins, hne, hne.symm,
    or_comm]

lemma Attachable.adjoins (h : state.AllBuilt graph options read) (fixed : Fixed graph read)
    {base sub : RouteId} {relation : Relation}
    (attachable : state.Attachable graph options base sub relation)
    (hbase : (state.arena.route base).Contiguous) (hsub : (state.arena.route sub).Contiguous) :
    (state.arena.route base).Adjoins (state.arena.route sub) := by
  have neighbors := h.neighbors_iff fixed attachable.base_lt attachable.sub_lt attachable.disjoint
  have licensed := attachable.licensed
  cases relation with
  | argument => exact neighbors.1 licensed.2.2.2
  | adjunction => exact neighbors.1 licensed.2.2.1
  | part =>
    have follows := (h.fits attachable.sub_lt).root_mem
    rw [← licensed.2.1] at follows
    exact hbase.adjoins_of_mem hsub attachable.disjoint (h.fits attachable.base_lt).root_mem follows

theorem AllBuilt.contiguous (h : state.AllBuilt graph options read) (fixed : Fixed graph read)
    {id : RouteId} (hid : id < state.arena.size) : (state.arena.route id).Contiguous := by
  refine h.induct (motive := fun _ route => route.Contiguous) (fun id part standing => ?_) ?_ hid
  · rw [fixed part standing.mem]
    exact Route.contiguous_leaf part
  · intro id base sub relation _ _ attachable hbase hsub
    exact hbase.extend hsub (h.fits attachable.base_lt) (h.fits attachable.sub_lt)
      (attachable.adjoins h fixed hbase hsub) sub relation

end SearchState

end MergeGrammar
