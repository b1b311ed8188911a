import Mathlib.Order.Bounds.Basic
import Mathlib.Order.MinMax
import MergeGrammar.Proofs.LockStep
import MergeGrammar.Proofs.SpanAccounting

/-!
# Separate spans

A stretch starts and ends at signals of its route, though a consumed mover may leave a gap between
them. So two routes without a common signal have four different ends, and if their stretches do not
cross either, one of them ends before the other starts.
-/

namespace MergeGrammar

namespace Span

/-- One of the two stretches ends before the other starts. -/
def Separate (a b : Span) : Prop := a.high < b.low ∨ b.high < a.low

variable {a b : Span}

lemma overlaps_of_low_eq (h : a.low = b.low) : a.overlaps b = false := by
  rw [overlaps, h, if_neg (lt_irrefl _), if_neg (lt_irrefl _)]

lemma overlaps_eq_false_iff : a.overlaps b = false ↔
    (a.low < b.low → a.high ≤ b.low) ∧ (b.low < a.low → b.high ≤ a.low) := by
  rcases lt_trichotomy a.low b.low with hlt | heq | hlt
  · simp [overlaps, hlt, hlt.asymm]
  · simp [overlaps_of_low_eq heq, heq]
  · simp [overlaps, hlt, hlt.asymm]

/-- Stretches that touch in no end and do not cross are separate. -/
lemma separate_of_not_overlaps (h : a.overlaps b = false) (hlow : a.low ≠ b.low)
    (hab : a.high ≠ b.low) (hba : b.high ≠ a.low) : a.Separate b := by
  obtain ⟨below, above⟩ := overlaps_eq_false_iff.1 h
  rcases Nat.lt_or_gt_of_ne hlow with hlt | hlt
  · exact Or.inl (lt_of_le_of_ne (below hlt) hab)
  · exact Or.inr (lt_of_le_of_ne (above hlt) hba)

lemma Separate.not_overlaps (h : a.Separate b) (ha : a.low ≤ a.high) (hb : b.low ≤ b.high) :
    a.overlaps b = false := by
  rw [overlaps_eq_false_iff]
  rcases h with h | h
  · exact ⟨fun _ => h.le, fun hlt => absurd hlt (ha.trans_lt h).asymm⟩
  · exact ⟨fun hlt => absurd hlt (hb.trans_lt h).asymm, fun _ => h.le⟩

end Span

namespace Route

/-- Both ends of the stretch are signals of the route. -/
structure Ended (route : Route) : Prop where
  low_mem : route.span.low ∈ route.signals
  high_mem : route.span.high ∈ route.signals

/-- The stretch of a route starts at one of its signals, at its head or below it, and ends at the
last of its signals. -/
structure Anchored (route : Route) : Prop where
  low_le_head : route.span.low ≤ route.span.head
  head_le_high : route.span.head ≤ route.span.high
  low_mem : route.span.low ∈ route.signals
  greatest : IsGreatest {s | s ∈ route.signals} route.span.high

/-- Two routes share no signal, their stretches are separate, and the head of the second one is no
mover of the first one, free or used. -/
structure Clear (base sub : Route) : Prop where
  disjoint : ∀ s ∈ base.signals, s ∉ sub.signals
  separate : base.span.Separate sub.span
  unmoved : sub.span.head ∉ base.span.movers
  unused : sub.span.head ∉ base.span.usedMovers

lemma ended_leaf (root : WordPart) (free : Bool) : (leaf root free).Ended :=
  ⟨SignalSet.mem_singleton.2 rfl, SignalSet.mem_singleton.2 rfl⟩

lemma low_extend (base sub : Route) (id : RouteId) (relation : Relation) :
    (base.extend id sub relation).span.low = base.span.low ∨
      (base.extend id sub relation).span.low = sub.span.low := by
  cases relation with
  | argument =>
    rw [extend, Span.low_withArg]
    split
    · exact Or.inl rfl
    · exact min_choice _ _
  | adjunction => exact min_choice _ _
  | part => exact min_choice _ _

section Ends

variable {base sub : Route} (hbase : base.Ended) (hsub : sub.Ended)
include hbase hsub

/-- The ends of a combination are ends of what has been combined. -/
lemma Ended.extend (id : RouteId) (relation : Relation) :
    (base.extend id sub relation).Ended := by
  constructor
  · rw [signals_extend, SignalSet.mem_union]
    rcases low_extend base sub id relation with heq | heq
    · exact Or.inl (heq ▸ hbase.low_mem)
    · exact Or.inr (heq ▸ hsub.low_mem)
  · rw [high_extend, signals_extend, SignalSet.mem_union]
    rcases max_choice base.span.high sub.span.high with heq | heq
    · exact Or.inl (heq.symm ▸ hbase.high_mem)
    · exact Or.inr (heq.symm ▸ hsub.high_mem)

lemma conflict_of_low_eq (h : base.span.low = sub.span.low) : Climb.conflict base sub = true := by
  rw [← Bool.not_eq_false, Climb.conflict_eq_false]
  rintro ⟨-, disjoint⟩
  exact disjoint _ hbase.low_mem (h ▸ hsub.low_mem)

/-- Routes that do not conflict are clear of each other, and clear routes do not conflict. -/
lemma conflict_eq_false_iff (fits : base.Fits) (fits' : sub.Fits) :
    Climb.conflict base sub = false ↔ base.Clear sub := by
  rw [Climb.conflict_eq_false]
  constructor
  · rintro ⟨apart, disjoint⟩
    -- Equal ends would be common signals.
    have ne_of_mem : ∀ {s t : Signal}, s ∈ base.signals → t ∈ sub.signals → s ≠ t :=
      fun hs ht heq => disjoint _ hs (heq ▸ ht)
    have separate : base.span.Separate sub.span :=
      Span.separate_of_not_overlaps apart (ne_of_mem hbase.low_mem hsub.low_mem)
        (ne_of_mem hbase.high_mem hsub.low_mem) (ne_of_mem hbase.low_mem hsub.high_mem).symm
    exact ⟨disjoint, separate, fun hmover => disjoint _ (fits.movers_mem _ hmover) fits'.head_mem,
      fun hused => disjoint _ (fits.used_mem _ hused) fits'.head_mem⟩
  · intro clear
    exact ⟨clear.separate.not_overlaps (fits.low_le.trans fits.le_high)
      (fits'.low_le.trans fits'.le_high), clear.disjoint⟩

end Ends

end Route

namespace SearchState

variable {graph : Graph} {options : Options} {read : Array WordPart} {state : SearchState}

section Built

variable (h : state.AllBuilt graph options read)
include h

lemma AllBuilt.ended {id : RouteId} (hid : id < state.arena.size) :
    (state.arena.route id).Ended :=
  h.induct (motive := fun _ route => route.Ended) (fun _ part _ => Route.ended_leaf part _)
    (fun _ _ sub relation _ _ _ hbase hsub => hbase.extend hsub sub relation) hid

lemma AllBuilt.anchored {id : RouteId} (hid : id < state.arena.size) :
    (state.arena.route id).Anchored :=
  ⟨(h.fits hid).low_le, (h.fits hid).le_high, (h.ended hid).low_mem, (h.ended hid).high_mem,
    h.le_high hid⟩

lemma AllBuilt.clear_iff {base sub : RouteId} (hbase : base < state.arena.size)
    (hsub : sub < state.arena.size) :
    Climb.conflict (state.arena.route base) (state.arena.route sub) = false ↔
      (state.arena.route base).Clear (state.arena.route sub) :=
  Route.conflict_eq_false_iff (h.ended hbase) (h.ended hsub) (h.fits hbase) (h.fits hsub)

end Built

end SearchState

namespace Session

variable {session : Session}

/-- The stretch of every stored route starts at one of its signals and ends at the last of them. Two
stored routes do not conflict exactly if they are clear of each other: in particular, routes that
start at the same signal conflict for sharing it, though their stretches do not cross. An attempt to
combine two routes offers their combination for storing if they are clear of each other and there is
room for the component, and otherwise it leaves the search as it was. All this holds at every stage,
so also of the tables that a climb finds in the midst of a step. -/
theorem spans_separate (stage : Stage session) :
    (∀ id, id < session.search.arena.size → (session.search.arena.route id).Anchored) ∧
    ∀ base sub, base < session.search.arena.size → sub < session.search.arena.size →
      let b := session.search.arena.route base
      let o := session.search.arena.route sub
      (b.span.low = o.span.low → b.span.overlaps o.span = false ∧ b.span.low ∈ b.signals ∧
        b.span.low ∈ o.signals ∧ Climb.conflict b o = true) ∧
      (Climb.conflict b o = false ↔ b.Clear o) ∧
      ∀ setting visit relation (climb : Climb), climb.state = session.search →
        (b.Clear o ∧ Climb.isFilled b o relation = false →
          (climb.tried.store setting visit (session.search.attach base sub relation)).1.InStep
            (climb.combine setting visit relation base sub)) ∧
        (¬(b.Clear o ∧ Climb.isFilled b o relation = false) →
          climb.InStep (climb.combine setting visit relation base sub)) := by
  have built := stage.allBuilt.1
  refine ⟨fun id hid => built.anchored hid, fun base sub hbase hsub => ?_⟩
  dsimp only
  have ended := built.ended hbase
  have ended' := built.ended hsub
  have clear_iff := built.clear_iff hbase hsub
  refine ⟨fun hlow => ?_, clear_iff, fun setting visit relation climb hstate => ?_⟩
  · exact ⟨Span.overlaps_of_low_eq hlow, ended.low_mem, hlow ▸ ended'.low_mem,
      Route.conflict_of_low_eq ended ended' hlow⟩
  · rw [← clear_iff, ← hstate]
    constructor
    · rintro ⟨unconflicted, unfilled⟩
      have hne : base ≠ sub := by
        rintro rfl
        exact (clear_iff.1 (hstate ▸ unconflicted)).disjoint _ ended.low_mem ended.low_mem
      exact Climb.combine_of_open hne unconflicted unfilled
    · intro barred
      rw [not_and_or, Bool.not_eq_false, Bool.not_eq_false] at barred
      exact Climb.combine_of_barred (Or.inr barred)

/-- The stretch of a head that has taken a modified noun starts at the head, after the noun. The
head and the noun alone are clear of each other. -/
theorem fronted_clear :
    ((fronted.stepped 3).search.arena.route 5).span.low = 3 ∧
      2 ∈ ((fronted.stepped 3).search.arena.route 5).signals ∧
      ((fronted.stepped 3).search.arena.route 5).Anchored ∧
      ((fronted.stepped 3).search.arena.route 3).Clear
        ((fronted.stepped 3).search.arena.route 2) := by
  obtain ⟨anchored, separated⟩ := spans_separate (fronted_reachable 3).stage
  have unconflicted : Climb.conflict ((fronted.stepped 3).search.arena.route 3)
      ((fronted.stepped 3).search.arena.route 2) = false := by decide +kernel
  obtain ⟨-, clear_iff, -⟩ := separated 3 2 (by decide +kernel) (by decide +kernel)
  exact ⟨by decide +kernel, by decide +kernel, anchored 5 (by decide +kernel),
    clear_iff.1 unconflicted⟩

end Session

end MergeGrammar
