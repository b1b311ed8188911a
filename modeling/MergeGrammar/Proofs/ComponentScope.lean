import MergeGrammar.Proofs.Lineage

/-!
# Spans from components

Everything in the span of a route is determined by its components but for one thing: whether its
root has been consumed as a mover.
-/

namespace MergeGrammar

namespace Span

/-- Two spans agree in all but whether a signal is among their movers. -/
structure AgreesOff (span : Span) (signal : Signal) (other : Span) : Prop where
  head_eq : span.head = other.head
  low_eq : span.low = other.low
  high_eq : span.high = other.high
  movers_iff : ∀ x, x ≠ signal → (x ∈ span.movers ↔ x ∈ other.movers)
  used_iff : ∀ x, x ≠ signal → (x ∈ span.usedMovers ↔ x ∈ other.usedMovers)

lemma AgreesOff.eq {span other : Span} {signal : Signal} (h : span.AgreesOff signal other)
    (movers_iff : signal ∈ span.movers ↔ signal ∈ other.movers)
    (used_iff : signal ∈ span.usedMovers ↔ signal ∈ other.usedMovers) : span = other := by
  have hmovers : span.movers = other.movers := by
    ext x
    by_cases hx : x = signal
    · rw [hx, movers_iff]
    · exact h.movers_iff x hx
  have hused : span.usedMovers = other.usedMovers := by
    ext x
    by_cases hx : x = signal
    · rw [hx, used_iff]
    · exact h.used_iff x hx
  obtain ⟨head, low, high, movers, used⟩ := span
  rw [Span.mk.injEq]
  exact ⟨h.head_eq, h.low_eq, h.high_eq, hmovers, hused⟩

end Span

namespace Arena

variable (arena : Arena)

def Moves (id : RouteId) : Prop := (arena.route id).span.movers.isEmpty = false

variable {arena} {root : WordPart} {free : Bool} {route : Route}

/-- What the components of a route say about its span, given whether its root has been consumed. -/
structure Scope (arena : Arena) (free : Bool) (consumed : Prop) (route : Route) : Prop where
  fits : ∀ id ∈ route.components, (arena.route id).Fits
  apart : ∀ id ∈ route.components, route.root.signal ∉ (arena.route id).signals
  le_low : ∀ n, n ≤ route.span.low ↔ n ≤ route.root.signal ∧
    (∀ id, route.part = some id → n ≤ (arena.route id).span.low) ∧
    (∀ id, route.arg = some id → (arena.route id).span.head ∉ (arena.route id).span.movers →
      n ≤ (arena.route id).span.low) ∧
    ∀ id ∈ route.adjuncts, n ≤ (arena.route id).span.low
  high_le : ∀ n, route.span.high ≤ n ↔ route.root.signal ≤ n ∧
    ∀ id ∈ route.components, (arena.route id).span.high ≤ n
  used : ∀ x, x ∈ route.span.usedMovers ↔
    (∃ id ∈ route.components, x ∈ (arena.route id).span.usedMovers) ∨
    (∃ id, route.arg = some id ∧ x = (arena.route id).span.head ∧
      x ∈ (arena.route id).span.movers) ∨
    x = route.root.signal ∧ consumed
  movers : ∀ x, x ∈ route.span.movers ↔
    (∃ id, route.part = some id ∧ x ∈ (arena.route id).span.movers) ∨
    (∃ id, route.arg = some id ∧ x ≠ (arena.route id).span.head ∧
      x ∈ (arena.route id).span.movers) ∨
    x = route.root.signal ∧ ¬consumed ∧ (free = true ∨ ∃ id ∈ route.adjuncts, arena.Moves id)

lemma scope_leaf (root : WordPart) (free : Bool) :
    arena.Scope free False (.leaf root free) where
  fits id hid := absurd hid List.not_mem_nil
  apart id hid := absurd hid List.not_mem_nil
  le_low n := by simp [Route.leaf, Span.leaf]
  high_le n := by
    rw [Route.components_leaf]
    simp [Route.leaf, Span.leaf]
  used x := by
    rw [Route.components_leaf]
    simp [Route.leaf, Span.leaf]
  movers x := by cases free <;> simp [Route.leaf, Span.leaf]

namespace Scope

variable {consumed : Prop}

lemma root_used (h : arena.Scope free consumed route) :
    route.root.signal ∈ route.span.usedMovers ↔ consumed := by
  rw [h.used]
  constructor
  · rintro (⟨id, hid, hused⟩ | ⟨id, harg, hhead, -⟩ | ⟨-, hconsumed⟩)
    · exact absurd ((h.fits id hid).used_mem _ hused) (h.apart id hid)
    · have hid : id ∈ route.components := Route.mem_components.2 (Or.inr (Or.inl harg))
      have hroot := (h.fits id hid).root_mem
      rw [← (h.fits id hid).head_eq, ← hhead] at hroot
      exact absurd hroot (h.apart id hid)
    · exact hconsumed
  · exact fun hconsumed => Or.inr (Or.inr ⟨rfl, hconsumed⟩)

lemma root_not_mover (h : arena.Scope free consumed route) {id : RouteId}
    (hid : route.part = some id ∨ route.arg = some id) :
    route.root.signal ∉ (arena.route id).span.movers := by
  intro hmover
  have hmem : id ∈ route.components := Route.mem_components.2 (hid.imp_right Or.inl)
  exact h.apart id hmem ((h.fits id hmem).movers_mem _ hmover)

lemma root_movers (h : arena.Scope free consumed route) :
    route.root.signal ∈ route.span.movers ↔
      ¬consumed ∧ (free = true ∨ ∃ id ∈ route.adjuncts, arena.Moves id) := by
  rw [h.movers]
  constructor
  · rintro (⟨id, hpart, hmover⟩ | ⟨id, harg, -, hmover⟩ | ⟨-, hmobile⟩)
    · exact absurd hmover (h.root_not_mover (Or.inl hpart))
    · exact absurd hmover (h.root_not_mover (Or.inr harg))
    · exact hmobile
  · exact fun hmobile => Or.inr (Or.inr ⟨rfl, hmobile⟩)

end Scope

/-- A component may be attached to a route. -/
structure Attaching (arena : Arena) (base : Route) (sub : RouteId) (relation : Relation) : Prop where
  base_fits : base.Fits
  sub_fits : (arena.route sub).Fits
  disjoint : ∀ x ∈ base.signals, x ∉ (arena.route sub).signals
  unfilled : Climb.isFilled base (arena.route sub) relation = false

namespace Attaching

variable {sub : RouteId} {relation : Relation} (h : arena.Attaching route sub relation)
include h

lemma mem_components {id : RouteId} : id ∈ (route.extend sub (arena.route sub) relation).components ↔
    id = sub ∨ id ∈ route.components :=
  Route.mem_components_extend h.unfilled

lemma root_apart : route.root.signal ∉ (arena.route sub).signals :=
  h.disjoint _ h.base_fits.root_mem

lemma movers_apart : ∀ x ∈ route.span.movers, x ∉ (arena.route sub).signals := fun x hx =>
  h.disjoint x (h.base_fits.movers_mem x hx)

lemma used_apart : ∀ x ∈ route.span.usedMovers, x ∉ (arena.route sub).signals := fun x hx =>
  h.disjoint x (h.base_fits.used_mem x hx)

lemma consumes_iff : route.span.Consumes (arena.route sub).span ↔
    (arena.route sub).span.head ∈ (arena.route sub).span.movers := by
  exact or_iff_right fun hmover => h.movers_apart _ hmover.1 h.sub_fits.head_mem

end Attaching

namespace Scope

variable {sub : RouteId}

lemma le_low_extend {consumed : Prop} {relation : Relation} (h : arena.Scope free consumed route)
    (attaching : arena.Attaching route sub relation) (n : Nat) :
    n ≤ (route.extend sub (arena.route sub) relation).span.low ↔ n ≤ route.root.signal ∧
      (∀ id, (route.extend sub (arena.route sub) relation).part = some id →
        n ≤ (arena.route id).span.low) ∧
      (∀ id, (route.extend sub (arena.route sub) relation).arg = some id →
        (arena.route id).span.head ∉ (arena.route id).span.movers → n ≤ (arena.route id).span.low) ∧
      ∀ id ∈ (route.extend sub (arena.route sub) relation).adjuncts,
        n ≤ (arena.route id).span.low := by
  have hlow := h.le_low n
  have unfilled := attaching.unfilled
  rw [Route.part_extend, Route.arg_extend, Route.adjuncts_extend]
  cases relation with
  | argument =>
    have hnone : route.arg = none := (Climb.isFilled_argument.1 unfilled).1
    simp only [hnone, reduceCtorEq, false_implies, implies_true, true_and] at hlow
    simp only [reduceCtorEq, if_true, if_false, Option.some.injEq, forall_eq']
    rw [Route.extend, Span.low_withArg]
    by_cases hmover : (arena.route sub).span.head ∈ (arena.route sub).span.movers
    · rw [if_pos (attaching.consumes_iff.2 hmover), hlow]
      tauto
    · rw [if_neg (fun hconsumes => hmover (attaching.consumes_iff.1 hconsumes)), Nat.le_min, hlow]
      tauto
  | adjunction =>
    simp only [reduceCtorEq, if_true, if_false, List.mem_append, List.mem_singleton]
    change n ≤ min route.span.low (arena.route sub).span.low ↔ _
    rw [Nat.le_min, hlow]
    grind
  | part =>
    have hnone : route.part = none := Climb.isFilled_part.1 unfilled
    simp only [hnone, reduceCtorEq, false_implies, implies_true, true_and] at hlow
    simp only [reduceCtorEq, if_true, if_false, Option.some.injEq, forall_eq']
    change n ≤ min route.span.low (arena.route sub).span.low ↔ _
    rw [Nat.le_min, hlow]
    tauto

lemma used_extend {consumed : Prop} {relation : Relation} (h : arena.Scope free consumed route)
    (attaching : arena.Attaching route sub relation) (unconsumed : route.arg = none → ¬consumed)
    (x : Nat) : x ∈ (route.extend sub (arena.route sub) relation).span.usedMovers ↔
      (∃ id ∈ (route.extend sub (arena.route sub) relation).components,
        x ∈ (arena.route id).span.usedMovers) ∨
      (∃ id, (route.extend sub (arena.route sub) relation).arg = some id ∧
        x = (arena.route id).span.head ∧ x ∈ (arena.route id).span.movers) ∨
      x = route.root.signal ∧ (consumed ∨ relation = .argument ∧
        (free = true ∨ ∃ id ∈ route.adjuncts, arena.Moves id)) := by
  have hused := h.used x
  have unfilled := attaching.unfilled
  simp only [attaching.mem_components]
  rw [Route.arg_extend]
  cases relation with
  | argument =>
    have hnone : route.arg = none := (Climb.isFilled_argument.1 unfilled).1
    have hroot := h.root_movers
    have hhead := attaching.base_fits.head_eq
    rw [Route.extend, Span.mem_usedMovers_withArg, hused, attaching.consumes_iff, hhead, hroot]
    have hsub : (arena.route sub).span.head ∈ (arena.route sub).span.movers ∧
        x = (arena.route sub).span.head ↔ x = (arena.route sub).span.head ∧
        x ∈ (arena.route sub).span.movers := by
      rw [and_comm]
      exact and_congr_right fun heq => by rw [heq]
    simp only [hnone, hsub, unconsumed hnone, if_true, Option.some.injEq, exists_eq_left',
      reduceCtorEq, false_and, exists_false, false_or, exists_eq_or_imp, not_false_eq_true,
      true_and, and_false, or_false]
    rw [and_comm (b := x = route.root.signal)]
    refine iff_of_eq ?_
    ac_rfl
  | adjunction =>
    change x ∈ (route.span.withAdjunct (arena.route sub).span).usedMovers ↔ _
    rw [Span.mem_usedMovers_withAdjunct, hused]
    simp only [reduceCtorEq, if_false, false_and, or_false, exists_eq_or_imp]
    refine iff_of_eq ?_
    ac_rfl
  | part =>
    change x ∈ (route.span.withPart (arena.route sub).span).usedMovers ↔ _
    rw [Span.mem_usedMovers_withPart, hused]
    simp only [reduceCtorEq, if_false, false_and, or_false, exists_eq_or_imp]
    refine iff_of_eq ?_
    ac_rfl

lemma movers_extend_argument {consumed : Prop} (h : arena.Scope free consumed route)
    (attaching : arena.Attaching route sub .argument) (x : Nat) :
    x ∈ (route.extend sub (arena.route sub) .argument).span.movers ↔
      (∃ id, route.part = some id ∧ x ∈ (arena.route id).span.movers) ∨
      x ≠ (arena.route sub).span.head ∧ x ∈ (arena.route sub).span.movers := by
  have hnone : route.arg = none := (Climb.isFilled_argument.1 attaching.unfilled).1
  have hhead := attaching.base_fits.head_eq
  change x ∈ (route.span.withArg (arena.route sub).span).movers ↔ _
  rw [Span.mem_movers_withArg, Span.mem_usedMovers_withArg, hhead]
  constructor
  · rintro ⟨⟨hx, hne⟩ | hx, hother, -⟩
    · rcases (h.movers x).1 hx with hpart | ⟨id, harg, -⟩ | ⟨heq, -⟩
      · exact Or.inl hpart
      · rw [hnone] at harg
        cases harg
      · exact absurd heq hne
    · exact Or.inr ⟨hother, hx⟩
  · rintro (⟨id, hpart, hx⟩ | ⟨hother, hx⟩)
    · have hmover : x ∈ route.span.movers := (h.movers x).2 (Or.inl ⟨id, hpart, hx⟩)
      have hapart := attaching.movers_apart x hmover
      have hroot : x ≠ route.root.signal := fun heq => h.root_not_mover (Or.inl hpart) (heq ▸ hx)
      have hother : x ≠ (arena.route sub).span.head := fun heq =>
        hapart (heq ▸ attaching.sub_fits.head_mem)
      refine ⟨Or.inl ⟨hmover, hroot⟩, hother, ?_⟩
      rintro (hused | hused | ⟨-, heq⟩ | ⟨-, heq⟩)
      · exact attaching.base_fits.unused x hmover hused
      · exact hapart (attaching.sub_fits.used_mem x hused)
      · exact hroot heq
      · exact hother heq
    · have hsignal := attaching.sub_fits.movers_mem x hx
      refine ⟨Or.inr hx, hother, ?_⟩
      rintro (hused | hused | ⟨-, heq⟩ | ⟨-, heq⟩)
      · exact attaching.used_apart x hused hsignal
      · exact attaching.sub_fits.unused x hx hused
      · exact attaching.root_apart (heq ▸ hsignal)
      · exact hother heq

lemma movers_extend_adjunction {consumed : Prop} (h : arena.Scope free consumed route)
    (attaching : arena.Attaching route sub .adjunction) (x : Nat) :
    x ∈ (route.extend sub (arena.route sub) .adjunction).span.movers ↔
      x ∈ route.span.movers ∨ x = route.root.signal ∧ ¬consumed ∧ arena.Moves sub := by
  have hhead := attaching.base_fits.head_eq
  change x ∈ (route.span.withAdjunct (arena.route sub).span).movers ↔ _
  rw [Span.mem_movers_withAdjunct, hhead, ← h.root_used]
  constructor
  · rintro ⟨hx | ⟨heq, hmoves⟩, hbase, -⟩
    · exact Or.inl hx
    · exact Or.inr ⟨heq, heq ▸ hbase, hmoves⟩
  · rintro (hx | ⟨heq, hunused, hmoves⟩)
    · refine ⟨Or.inl hx, attaching.base_fits.unused x hx, fun hused => ?_⟩
      exact attaching.movers_apart x hx (attaching.sub_fits.used_mem x hused)
    · refine ⟨Or.inr ⟨heq, hmoves⟩, heq ▸ hunused, fun hused => ?_⟩
      exact attaching.root_apart (heq ▸ attaching.sub_fits.used_mem x hused)

lemma movers_extend_part (attaching : arena.Attaching route sub .part) (x : Nat) :
    x ∈ (route.extend sub (arena.route sub) .part).span.movers ↔
      x ∈ route.span.movers ∨ x ∈ (arena.route sub).span.movers := by
  change x ∈ (route.span.withPart (arena.route sub).span).movers ↔ _
  rw [Span.mem_movers_withPart]
  refine and_iff_left_of_imp ?_
  rintro (hx | hx)
  · refine ⟨attaching.base_fits.unused x hx, fun hused => ?_⟩
    exact attaching.movers_apart x hx (attaching.sub_fits.used_mem x hused)
  · refine ⟨fun hused => ?_, attaching.sub_fits.unused x hx⟩
    exact attaching.used_apart x hused (attaching.sub_fits.movers_mem x hx)

lemma movers_extend {consumed : Prop} {relation : Relation} (h : arena.Scope free consumed route)
    (attaching : arena.Attaching route sub relation) (x : Nat) :
    x ∈ (route.extend sub (arena.route sub) relation).span.movers ↔
      (∃ id, (route.extend sub (arena.route sub) relation).part = some id ∧
        x ∈ (arena.route id).span.movers) ∨
      (∃ id, (route.extend sub (arena.route sub) relation).arg = some id ∧
        x ≠ (arena.route id).span.head ∧ x ∈ (arena.route id).span.movers) ∨
      x = route.root.signal ∧
        ¬(consumed ∨ relation = .argument ∧
          (free = true ∨ ∃ id ∈ route.adjuncts, arena.Moves id)) ∧
        (free = true ∨ ∃ id ∈ (route.extend sub (arena.route sub) relation).adjuncts,
          arena.Moves id) := by
  have hmovers := h.movers x
  rw [Route.part_extend, Route.arg_extend, Route.adjuncts_extend]
  cases relation with
  | argument =>
    -- A root that may move is consumed by its argument, so it is no mover any longer.
    rw [h.movers_extend_argument attaching]
    simp only [reduceCtorEq, if_true, if_false, Option.some.injEq, exists_eq_left', true_and]
    refine or_congr Iff.rfl (or_iff_left ?_).symm
    rintro ⟨-, hstuck, hmobile⟩
    exact hstuck (Or.inr hmobile)
  | adjunction =>
    have hmoves : (∃ id ∈ route.adjuncts ++ [sub], arena.Moves id) ↔
        (∃ id ∈ route.adjuncts, arena.Moves id) ∨ arena.Moves sub := by
      simp [or_and_right, exists_or]
    rw [h.movers_extend_adjunction attaching, hmovers]
    simp only [reduceCtorEq, if_true, if_false, false_and, or_false, hmoves, or_assoc,
      ← and_or_left]
  | part =>
    have hnone : route.part = none := Climb.isFilled_part.1 attaching.unfilled
    simp only [hnone, reduceCtorEq, false_and, exists_false, false_or] at hmovers
    rw [movers_extend_part attaching, hmovers]
    simp only [reduceCtorEq, if_true, if_false, false_and, or_false, Option.some.injEq,
      exists_eq_left']
    exact or_comm

lemma extend {consumed : Prop} {relation : Relation} (h : arena.Scope free consumed route)
    (attaching : arena.Attaching route sub relation) (unconsumed : route.arg = none → ¬consumed) :
    arena.Scope free (consumed ∨ relation = .argument ∧
        (free = true ∨ ∃ id ∈ route.adjuncts, arena.Moves id))
      (route.extend sub (arena.route sub) relation) where
  fits id hid := by
    rcases attaching.mem_components.1 hid with rfl | hid
    · exact attaching.sub_fits
    · exact h.fits id hid
  apart id hid := by
    rw [Route.root_extend]
    rcases attaching.mem_components.1 hid with rfl | hid
    · exact attaching.root_apart
    · exact h.apart id hid
  le_low n := by
    rw [Route.root_extend]
    exact h.le_low_extend attaching n
  high_le n := by
    rw [Route.root_extend, Route.high_extend, Nat.max_le, h.high_le]
    simp only [attaching.mem_components, forall_eq_or_imp]
    rw [and_assoc, and_comm (a := ∀ id ∈ route.components, _)]
  used x := by
    rw [Route.root_extend]
    exact h.used_extend attaching unconsumed x
  movers x := by
    rw [Route.root_extend]
    exact h.movers_extend attaching x

/-- Two routes with the same components have the same span but for their root. -/
lemma agreesOff {other : Route} {consumed' : Prop} (h : arena.Scope free consumed route)
    (h' : arena.Scope free consumed' other) (root_eq : route.root = other.root)
    (key_eq : route.key = other.key) (head_eq : route.span.head = other.span.head) :
    route.span.AgreesOff route.root.signal other.span := by
  obtain ⟨-, part_eq, arg_eq, adjuncts_eq⟩ := Route.key_eq_iff.1 key_eq
  have components_eq : route.components = other.components := by
    rw [Route.components, Route.components, part_eq, arg_eq, adjuncts_eq]
  refine ⟨head_eq, eq_of_forall_le_iff fun n => ?_, eq_of_forall_ge_iff fun n => ?_,
    fun x hx => ?_, fun x hx => ?_⟩
  · rw [h.le_low, h'.le_low, root_eq, part_eq, arg_eq, adjuncts_eq]
  · rw [h.high_le, h'.high_le, root_eq, components_eq]
  · have hx' : x ≠ other.root.signal := root_eq ▸ hx
    rw [h.movers, h'.movers, part_eq, arg_eq]
    simp only [hx, hx', false_and]
  · have hx' : x ≠ other.root.signal := root_eq ▸ hx
    rw [h.used, h'.used, components_eq, arg_eq]
    simp only [hx, hx', false_and]

/-- Two routes with the same components have the same span if they agree on the root. -/
lemma span_eq_iff {other : Route} {consumed' : Prop} (h : arena.Scope free consumed route)
    (h' : arena.Scope free consumed' other) (root_eq : route.root = other.root)
    (key_eq : route.key = other.key) (head_eq : route.span.head = other.span.head) :
    route.span = other.span ↔ (consumed ↔ consumed') := by
  have hused := h.root_used
  have hused' := root_eq ▸ h'.root_used
  constructor
  · intro heq
    rw [← hused, ← hused', heq]
  · intro hconsumed
    have hmovers := h.root_movers
    have hmovers' := root_eq ▸ h'.root_movers
    rw [(Route.key_eq_iff.1 key_eq).2.2.2, hconsumed, ← hmovers'] at hmovers
    rw [hconsumed, ← hused'] at hused
    exact (h.agreesOff h' root_eq key_eq head_eq).eq hmovers hused

end Scope

end Arena

end MergeGrammar
