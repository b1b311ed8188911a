import MergeGrammar.Proofs.ComponentScope

/-!
# The order of attachment

The same components can be attached to a root in different orders, and the key of a route does not
tell them apart. The root is consumed as a mover when an argument is attached to a root that may
move, because it is free or because an adjunct with movers has been attached before. So the order
decides about the span of a route whose root is not free.
-/

namespace MergeGrammar

abbrev Assembly := List (Relation × RouteId)

namespace Arena

variable (arena : Arena)

/-- A route comes from a root by attachments in the given order. -/
inductive Assembled (root : WordPart) (free : Bool) : Assembly → Route → Prop where
  | leaf : Assembled root free [] (.leaf root free)
  | attach {steps : Assembly} {base : Route} {sub : RouteId} {relation : Relation}
    (assembled : Assembled root free steps base) (fits : (arena.route sub).Fits)
    (unconflicted : Climb.conflict base (arena.route sub) = false)
    (unfilled : Climb.isFilled base (arena.route sub) relation = false) :
    Assembled root free (steps ++ [(relation, sub)])
      (base.extend sub (arena.route sub) relation)

/-- The root is free or hosts an adjunct with movers. -/
def Mobile (free : Bool) (steps : Assembly) : Prop :=
  free = true ∨ ∃ id, (.adjunction, id) ∈ steps ∧ arena.Moves id

/-- An argument has been attached to a root that may move. -/
def Consumed (free : Bool) (steps : Assembly) : Prop :=
  ∃ before id, before ++ [(Relation.argument, id)] <+: steps ∧ arena.Mobile free before

/-- An argument has been attached behind an adjunct with movers. -/
def ArgumentLate (steps : Assembly) : Prop :=
  ∃ before id, before ++ [(Relation.argument, id)] <+: steps ∧
    ∃ adjunct, (.adjunction, adjunct) ∈ before ∧ arena.Moves adjunct

variable {arena} {root : WordPart} {free : Bool} {steps : Assembly} {route : Route}

lemma consumed_concat {relation : Relation} {sub : RouteId} :
    arena.Consumed free (steps ++ [(relation, sub)]) ↔
      arena.Consumed free steps ∨ relation = .argument ∧ arena.Mobile free steps := by
  simp only [Consumed, List.prefix_concat_iff]
  constructor
  · rintro ⟨before, id, heq | hfront, mobile⟩
    · obtain ⟨rfl, hlast⟩ := List.append_inj' heq rfl
      simp only [List.cons.injEq, Prod.mk.injEq, and_true] at hlast
      exact Or.inr ⟨hlast.1.symm, mobile⟩
    · exact Or.inl ⟨before, id, hfront, mobile⟩
  · rintro (⟨before, id, hfront, mobile⟩ | ⟨rfl, mobile⟩)
    · exact ⟨before, id, Or.inr hfront, mobile⟩
    · exact ⟨steps, sub, Or.inl rfl, mobile⟩

namespace Assembled

lemma root_eq (h : arena.Assembled root free steps route) : route.root = root := by
  induction h with
  | leaf => rfl
  | attach _ _ _ _ ih => rw [Route.root_extend, ih]

lemma fits (h : arena.Assembled root free steps route) : route.Fits := by
  induction h with
  | leaf => exact Route.fits_leaf root free
  | attach _ fits _ _ ih => exact ih.extend fits _ _

lemma mem_adjuncts (h : arena.Assembled root free steps route) {id : RouteId} :
    id ∈ route.adjuncts ↔ (.adjunction, id) ∈ steps := by
  induction h with
  | leaf => simp [Route.leaf]
  | @attach steps base sub relation _ _ _ _ ih =>
    rw [List.mem_append, ← ih, List.mem_singleton, Prod.mk.injEq]
    cases relation with
    | argument => exact (or_iff_left fun h => by cases h.1).symm
    | adjunction =>
      change id ∈ base.adjuncts ++ [sub] ↔ _
      rw [List.mem_append, List.mem_singleton]
      exact or_congr Iff.rfl ⟨fun h => ⟨rfl, h⟩, fun h => h.2⟩
    | part => exact (or_iff_left fun h => by cases h.1).symm

lemma arg_eq (h : arena.Assembled root free steps route) {id : RouteId} :
    route.arg = some id ↔ (.argument, id) ∈ steps := by
  induction h with
  | leaf => simp [Route.leaf]
  | @attach steps base sub relation _ _ _ unfilled ih =>
    rw [List.mem_append, List.mem_singleton, Prod.mk.injEq, ← ih]
    cases relation with
    | argument =>
      have hnone : base.arg = none := (Climb.isFilled_argument.1 unfilled).1
      change some sub = some id ↔ _
      rw [hnone]
      simp [eq_comm]
    | adjunction => exact (or_iff_left fun h => by cases h.1).symm
    | part => exact (or_iff_left fun h => by cases h.1).symm

lemma mobile_iff (h : arena.Assembled root free steps route) :
    arena.Mobile free steps ↔ free = true ∨ ∃ id ∈ route.adjuncts, arena.Moves id := by
  rw [Mobile]
  refine or_congr Iff.rfl (exists_congr fun id => ?_)
  rw [h.mem_adjuncts]

lemma not_consumed (h : arena.Assembled root free steps route) (hnone : route.arg = none) :
    ¬arena.Consumed free steps := by
  rintro ⟨before, id, hfront, -⟩
  have hmem : (Relation.argument, id) ∈ steps := hfront.subset (by simp)
  rw [← h.arg_eq, hnone] at hmem
  cases hmem

lemma scope (h : arena.Assembled root free steps route) :
    arena.Scope free (arena.Consumed free steps) route := by
  induction h with
  | leaf =>
    have hnot : ¬arena.Consumed free [] := by
      rintro ⟨before, id, hfront, -⟩
      simpa using hfront.length_le
    rw [eq_false hnot]
    exact scope_leaf root free
  | @attach steps base sub relation assembled fits unconflicted unfilled ih =>
    have hdisjoint := (Climb.conflict_eq_false.1 unconflicted).2
    have attaching : arena.Attaching base sub relation :=
      ⟨assembled.fits, fits, hdisjoint, unfilled⟩
    rw [propext consumed_concat, propext assembled.mobile_iff]
    exact ih.extend attaching assembled.not_consumed

end Assembled

lemma consumed_fixed : arena.Consumed false steps ↔ arena.ArgumentLate steps := by
  simp [Consumed, Mobile, ArgumentLate]

lemma Assembled.consumed_free (h : arena.Assembled root true steps route) :
    arena.Consumed true steps ↔ route.arg.isSome = true := by
  rw [Option.isSome_iff_exists]
  constructor
  · rintro ⟨before, id, hfront, -⟩
    exact ⟨id, h.arg_eq.2 (hfront.subset (by simp))⟩
  · rintro ⟨id, hid⟩
    obtain ⟨before, after, rfl⟩ := List.append_of_mem (h.arg_eq.1 hid)
    exact ⟨before, id, ⟨after, by simp⟩, Or.inl rfl⟩

/-- The order of attachment decides about the span only if the root is not free. -/
lemma Assembled.span_eq_iff {other : Route} {earlier : Assembly}
    (h : arena.Assembled root free steps route) (h' : arena.Assembled root free earlier other)
    (key_eq : route.key = other.key) :
    route.span.AgreesOff root.signal other.span ∧ (route.span = other.span ↔
      free = true ∨ (arena.ArgumentLate steps ↔ arena.ArgumentLate earlier)) := by
  have root_eq : route.root = other.root := h.root_eq.trans h'.root_eq.symm
  have head_eq : route.span.head = other.span.head := by
    rw [h.fits.head_eq, h'.fits.head_eq, root_eq]
  have arg_eq := (Route.key_eq_iff.1 key_eq).2.2.1
  refine ⟨h.root_eq ▸ h.scope.agreesOff h'.scope root_eq key_eq head_eq, ?_⟩
  rw [h.scope.span_eq_iff h'.scope root_eq key_eq head_eq]
  cases free with
  | true =>
    -- A free root is consumed by its argument whatever comes before it.
    rw [h.consumed_free, h'.consumed_free, arg_eq]
    simp
  | false =>
    rw [consumed_fixed, consumed_fixed]
    simp

end Arena

lemma SearchState.AllBuilt.exists_assembled {graph : Graph} {options : Options}
    {read : Array WordPart} {state : SearchState} (h : state.AllBuilt graph options read)
    {id : RouteId} (hid : id < state.arena.size) :
    ∃ steps, state.arena.Assembled (state.arena.route id).root
      (graph.entry (state.arena.route id).root.entry).isFree steps (state.arena.route id) := by
  refine h.induct (motive := fun _ route => ∃ steps, state.arena.Assembled route.root
    (graph.entry route.root.entry).isFree steps route) (fun _ part _ => ⟨[], .leaf⟩) ?_ hid
  rintro id base sub relation - - attachable ⟨steps, assembled⟩ -
  refine ⟨steps ++ [(relation, sub)], ?_⟩
  rw [attach, Route.root_extend]
  exact .attach assembled (h.fits attachable.sub_lt)
    (Climb.conflict_eq_false.2 ⟨attachable.apart, attachable.disjoint⟩) attachable.unfilled

namespace Session

variable {session : Session}

/-- A stored route comes from its root by attachments in the given order. -/
def Assembles (session : Session) (id : RouteId) (steps : Assembly) : Prop :=
  let route := session.search.arena.route id
  session.search.arena.Assembled route.root (session.graph.entry route.root.entry).isFree steps
    route

/-- A route that is rebuilt under the key of a stored one agrees with it in all but whether the root
is among the movers. It agrees in this as well if the root is free, or if both of them or neither
have taken their argument behind an adjunct with movers. -/
theorem rebuilt_span_eq_iff (stage : Stage session) {base sub stored : RouteId}
    {relation : Relation} (base_lt : base < session.search.arena.size)
    (sub_lt : sub < session.search.arena.size) (stored_lt : stored < session.search.arena.size)
    (unconflicted : Climb.conflict (session.search.arena.route base)
      (session.search.arena.route sub) = false)
    (unfilled : Climb.isFilled (session.search.arena.route base)
      (session.search.arena.route sub) relation = false)
    (same_key : (session.search.attach base sub relation).key =
      (session.search.arena.route stored).key) :
    (session.search.attach base sub relation).span.AgreesOff
        (session.search.arena.route stored).root.signal (session.search.arena.route stored).span ∧
      (∃ steps, session.Assembles base steps) ∧ (∃ earlier, session.Assembles stored earlier) ∧
      ∀ steps earlier, session.Assembles base steps → session.Assembles stored earlier →
        ((session.search.attach base sub relation).span =
            (session.search.arena.route stored).span ↔
          (session.graph.entry (session.search.arena.route stored).root.entry).isFree = true ∨
            (session.search.arena.ArgumentLate (steps ++ [(relation, sub)]) ↔
              session.search.arena.ArgumentLate earlier)) := by
  have allBuilt := stage.allBuilt.1
  have tables := stage.coherent.tables
  have root_eq : (session.search.arena.route base).root =
      (session.search.arena.route stored).root := by
    refine (tables.root_read base base_lt).eq (tables.root_read stored stored_lt) ?_
    have signal_eq := (Route.key_eq_iff.1 same_key).1
    rwa [SearchState.attach, Route.root_extend] at signal_eq
  have rebuilt : ∀ steps, session.Assembles base steps → session.search.arena.Assembled _ _
      (steps ++ [(relation, sub)]) (session.search.attach base sub relation) :=
    fun steps assembled => .attach assembled (allBuilt.fits sub_lt) unconflicted unfilled
  rw [root_eq] at rebuilt
  obtain ⟨steps, assembled⟩ := allBuilt.exists_assembled base_lt
  obtain ⟨earlier, assembled'⟩ := allBuilt.exists_assembled stored_lt
  refine ⟨((rebuilt steps assembled).span_eq_iff assembled' same_key).1, ⟨steps, assembled⟩,
    ⟨earlier, assembled'⟩, fun steps earlier assembled assembled' => ?_⟩
  exact ((rebuilt steps assembled).span_eq_iff assembled' same_key).2

/-- In the sample the adjunct with movers has been attached before the argument in the rebuilt route
only, which has no movers left and covers the sentence. -/
theorem sample_rebuilt_span_ne :
    Reachable (sample.stepped 3) ∧
      Climb.conflict ((sample.stepped 3).search.arena.route 4)
        ((sample.stepped 3).search.arena.route 0) = false ∧
      Climb.isFilled ((sample.stepped 3).search.arena.route 4)
        ((sample.stepped 3).search.arena.route 0) .argument = false ∧
      ((sample.stepped 3).search.attach 4 0 .argument).key =
        ((sample.stepped 3).search.arena.route 5).key ∧
      ((sample.stepped 3).search.attach 4 0 .argument).span ≠
        ((sample.stepped 3).search.arena.route 5).span ∧
      (sample.stepped 3).covers ((sample.stepped 3).search.attach 4 0 .argument) = true ∧
      (sample.stepped 3).completeRoutes = [] :=
  ⟨sample_reachable 3, by decide +kernel⟩

/-- So the two routes of the sample come from different orders of attachment. -/
theorem sample_orders_differ :
    ∃ steps earlier, (sample.stepped 3).Assembles 4 steps ∧ (sample.stepped 3).Assembles 5 earlier ∧
      ¬((sample.stepped 3).search.arena.ArgumentLate (steps ++ [(.argument, 0)]) ↔
        (sample.stepped 3).search.arena.ArgumentLate earlier) := by
  have differ : ((sample.stepped 3).search.attach 4 0 .argument).span ≠
      ((sample.stepped 3).search.arena.route 5).span := by decide +kernel
  have same_key : ((sample.stepped 3).search.attach 4 0 .argument).key =
      ((sample.stepped 3).search.arena.route 5).key := by decide +kernel
  obtain ⟨-, ⟨steps, assembled⟩, ⟨earlier, assembled'⟩, decides⟩ :=
    rebuilt_span_eq_iff (sample_reachable 3).stage (by decide +kernel) (by decide +kernel)
      (by decide +kernel) (by decide +kernel) (by decide +kernel) same_key
  refine ⟨steps, earlier, assembled, assembled', fun agree => differ ?_⟩
  exact (decides steps earlier assembled assembled').2 (Or.inr agree)

end Session

end MergeGrammar
