import MergeGrammar.Proofs.AttachmentOrder

/-!
# Accounting for signals

A span accounts for a signal that lies in its stretch or is one of its movers, free or used. No
signal of a route lies above its stretch, but some may lie below it and be no movers: a mover that is
attached as an argument leaves the stretch where it is, whatever hangs on the mover, and an adjunct
takes its movers along without leaving them to its host.
-/

namespace MergeGrammar

namespace Span

/-- The signal lies in the stretch or is a mover, free or used. -/
def Accounts (span : Span) (signal : Signal) : Prop :=
  span.low ≤ signal ∧ signal ≤ span.high ∨ signal ∈ span.movers ∨ signal ∈ span.usedMovers

instance (span : Span) (signal : Signal) : Decidable (span.Accounts signal) :=
  inferInstanceAs (Decidable (_ ∨ _))

end Span

namespace Route

lemma components_extend_perm {base sub : Route} {id : RouteId} {relation : Relation}
    (unfilled : Climb.isFilled base sub relation = false) :
    (base.extend id sub relation).components.Perm (id :: base.components) := by
  cases relation with
  | argument =>
    have hnone : base.arg = none := (Climb.isFilled_argument.1 unfilled).1
    simp only [components, extend, hnone, Option.toList_some, Option.toList_none, List.append_nil,
      List.append_assoc]
    exact List.perm_middle
  | adjunction =>
    simp only [components, extend, ← List.append_assoc]
    exact List.perm_append_singleton _ _
  | part =>
    have hnone : base.part = none := Climb.isFilled_part.1 unfilled
    simp only [components, extend, hnone, Option.toList_some, Option.toList_none, List.nil_append]
    exact List.Perm.refl _

end Route

namespace Arena

/-- The signals of a route are its root's and those of its components, which share none. -/
structure Composed (arena : Arena) (route : Route) : Prop where
  nodup : route.components.Nodup
  signals : ∀ s, s ∈ route.signals ↔
    s = route.root.signal ∨ ∃ id ∈ route.components, s ∈ (arena.route id).signals
  separate : ∀ id ∈ route.components, ∀ other ∈ route.components, ∀ s,
    s ∈ (arena.route id).signals → s ∈ (arena.route other).signals → id = other

variable {arena : Arena} {route : Route}

lemma composed_leaf (root : WordPart) (free : Bool) : arena.Composed (.leaf root free) where
  nodup := List.nodup_nil
  signals s := by
    rw [Route.components_leaf]
    simp [Route.leaf]
  separate id hid := absurd hid List.not_mem_nil

namespace Composed

lemma mem_signals (h : arena.Composed route) {id : RouteId} (hid : id ∈ route.components) {s : Signal}
    (hs : s ∈ (arena.route id).signals) : s ∈ route.signals :=
  (h.signals s).2 (Or.inr ⟨id, hid, hs⟩)

lemma extend (h : arena.Composed route) {sub : RouteId} {relation : Relation}
    (attaching : arena.Attaching route sub relation) :
    arena.Composed (route.extend sub (arena.route sub) relation) where
  nodup := by
    rw [(Route.components_extend_perm attaching.unfilled).nodup_iff, List.nodup_cons]
    refine ⟨fun hmem => ?_, h.nodup⟩
    have hroot := attaching.sub_fits.root_mem
    exact attaching.disjoint _ (h.mem_signals hmem hroot) hroot
  signals s := by
    rw [Route.signals_extend, Route.root_extend, SignalSet.mem_union, h.signals]
    simp only [attaching.mem_components, exists_eq_or_imp]
    rw [or_assoc]
    exact or_congr Iff.rfl or_comm
  separate id hid other hother s hs hs' := by
    rcases attaching.mem_components.1 hid with rfl | hbase
    · rcases attaching.mem_components.1 hother with rfl | hbase'
      · rfl
      · exact absurd hs (attaching.disjoint s (h.mem_signals hbase' hs'))
    · rcases attaching.mem_components.1 hother with rfl | hbase'
      · exact absurd hs' (attaching.disjoint s (h.mem_signals hbase hs))
      · exact h.separate id hbase other hbase' s hs hs'

/-- Nothing is in two slots of a route. -/
lemma not_slot (h : arena.Composed route) {id : RouteId} (hid : id ∈ route.adjuncts) :
    route.part ≠ some id ∧ route.arg ≠ some id := by
  have nodup := h.nodup
  rw [Route.components, List.nodup_append] at nodup
  obtain ⟨-, -, apart⟩ := nodup
  constructor
  · intro hpart
    exact apart id (by simp [hpart]) id hid rfl
  · intro harg
    exact apart id (by simp [harg]) id hid rfl

end Composed

/-- The span of a route settles its own signals and those of each component. -/
structure Settled (arena : Arena) (route : Route) : Prop where
  composed : arena.Composed route
  scope : ∃ free consumed, arena.Scope free consumed route
  fits : route.Fits
  le_high : ∀ s ∈ route.signals, s ≤ route.span.high

namespace Settled

variable (h : arena.Settled route) {id : RouteId} {s : Signal}
include h

lemma mem_usedMovers (hid : id ∈ route.components) (hs : s ∈ (arena.route id).signals) :
    s ∈ route.span.usedMovers ↔ s ∈ (arena.route id).span.usedMovers ∨
      route.arg = some id ∧ s = (arena.route id).span.head ∧ s ∈ (arena.route id).span.movers := by
  obtain ⟨free, consumed, scope⟩ := h.scope
  rw [scope.used]
  constructor
  · rintro (⟨other, hother, hused⟩ | ⟨other, harg, hhead, hmover⟩ | ⟨hroot, -⟩)
    · have heq := h.composed.separate other hother id hid s ((scope.fits other hother).used_mem s hused) hs
      exact Or.inl (heq ▸ hused)
    · have hother : other ∈ route.components := Route.mem_components.2 (Or.inr (Or.inl harg))
      have heq := h.composed.separate other hother id hid s
        ((scope.fits other hother).movers_mem s hmover) hs
      subst heq
      exact Or.inr ⟨harg, hhead, hmover⟩
    · exact absurd (hroot ▸ hs) (scope.apart id hid)
  · rintro (hused | ⟨harg, hhead, hmover⟩)
    · exact Or.inl ⟨id, hid, hused⟩
    · exact Or.inr (Or.inl ⟨id, harg, hhead, hmover⟩)

lemma mem_movers (hid : id ∈ route.components) (hs : s ∈ (arena.route id).signals) :
    s ∈ route.span.movers ↔ s ∈ (arena.route id).span.movers ∧
      (route.part = some id ∨ route.arg = some id ∧ s ≠ (arena.route id).span.head) := by
  obtain ⟨free, consumed, scope⟩ := h.scope
  have same : ∀ other, other ∈ route.components → s ∈ (arena.route other).span.movers →
      other = id := fun other hother hmover =>
    h.composed.separate other hother id hid s ((scope.fits other hother).movers_mem s hmover) hs
  rw [scope.movers]
  constructor
  · rintro (⟨other, hpart, hmover⟩ | ⟨other, harg, hne, hmover⟩ | ⟨hroot, -⟩)
    · have heq := same other (Route.mem_components.2 (Or.inl hpart)) hmover
      subst heq
      exact ⟨hmover, Or.inl hpart⟩
    · have heq := same other (Route.mem_components.2 (Or.inr (Or.inl harg))) hmover
      subst heq
      exact ⟨hmover, Or.inr ⟨harg, hne⟩⟩
    · exact absurd (hroot ▸ hs) (scope.apart id hid)
  · rintro ⟨hmover, hpart | ⟨harg, hne⟩⟩
    · exact Or.inl ⟨id, hpart, hmover⟩
    · exact Or.inr (Or.inl ⟨id, harg, hne, hmover⟩)

/-- A signal of a component is accounted for if it is not below the stretch, or if it was used in the
component, or if it is a mover of the remnant or of the argument. -/
lemma accounts_iff (hid : id ∈ route.components) (hs : s ∈ (arena.route id).signals) :
    route.span.Accounts s ↔ route.span.low ≤ s ∨ s ∈ (arena.route id).span.usedMovers ∨
      s ∈ (arena.route id).span.movers ∧ (route.part = some id ∨ route.arg = some id) := by
  have hhigh := h.le_high s (h.composed.mem_signals hid hs)
  rw [Span.Accounts, h.mem_movers hid hs, h.mem_usedMovers hid hs, and_iff_left hhigh]
  by_cases hhead : s = (arena.route id).span.head
  · simp only [hhead, ne_eq, not_true_eq_false, and_false, or_false, true_and]
    tauto
  · simp only [hhead, ne_eq, not_false_eq_true, and_true, false_and, and_false, or_false]
    tauto

lemma accounts_root : route.span.Accounts route.root.signal := by
  rw [← h.fits.head_eq]
  exact Or.inl ⟨h.fits.low_le, h.fits.le_high⟩

lemma accounts_all_iff : (∀ s ∈ route.signals, route.span.Accounts s) ↔
    ∀ id ∈ route.components, ∀ s ∈ (arena.route id).signals, s < route.span.low →
      s ∈ (arena.route id).span.usedMovers ∨
        s ∈ (arena.route id).span.movers ∧ (route.part = some id ∨ route.arg = some id) := by
  constructor
  · intro accounts id hid s hs hlow
    have hs' := accounts s (h.composed.mem_signals hid hs)
    exact ((h.accounts_iff hid hs).1 hs').resolve_left (Nat.not_le_of_lt hlow)
  · intro below s hs
    rcases (h.composed.signals s).1 hs with rfl | ⟨id, hid, hs⟩
    · exact h.accounts_root
    · rw [h.accounts_iff hid hs]
      rcases Nat.lt_or_ge s route.span.low with hlow | hlow
      · exact Or.inr (below id hid s hs hlow)
      · exact Or.inl hlow

/-- What can be left out of the account when every component accounts for its own signals. -/
lemma accounts_all_iff_of_components
    (accounts : ∀ id ∈ route.components, ∀ s ∈ (arena.route id).signals,
      (arena.route id).span.Accounts s) :
    (∀ s ∈ route.signals, route.span.Accounts s) ↔
      (∀ id, route.arg = some id → (arena.route id).span.head ∈ (arena.route id).span.movers →
        ∀ s ∈ (arena.route id).signals, s < route.span.low →
          s ∈ (arena.route id).span.usedMovers ∨ s ∈ (arena.route id).span.movers) ∧
      ∀ id ∈ route.adjuncts, ∀ s ∈ (arena.route id).span.movers, route.span.low ≤ s := by
  obtain ⟨free, consumed, scope⟩ := h.scope
  obtain ⟨-, part_low, arg_low, adjunct_low⟩ := (scope.le_low route.span.low).1 le_rfl
  rw [h.accounts_all_iff]
  constructor
  · intro below
    refine ⟨fun id harg _ s hs hlow => ?_, fun id hid s hmover => ?_⟩
    · have hid : id ∈ route.components := Route.mem_components.2 (Or.inr (Or.inl harg))
      exact (below id hid s hs hlow).imp_right And.left
    · have hmem : id ∈ route.components := Route.mem_components.2 (Or.inr (Or.inr hid))
      obtain ⟨hpart, harg⟩ := h.composed.not_slot hid
      by_contra hlow
      rcases below id hmem s ((scope.fits id hmem).movers_mem s hmover) (Nat.lt_of_not_le hlow) with
        hused | ⟨-, hslot⟩
      · exact (scope.fits id hmem).unused s hmover hused
      · exact hslot.elim hpart harg
  · rintro ⟨consumed_low, mover_low⟩ id hid s hs hlow
    have own := accounts id hid s hs
    rcases Route.mem_components.1 hid with hpart | harg | hadjunct
    · rcases own with ⟨hge, -⟩ | hmover | hused
      · exact absurd ((part_low id hpart).trans hge) (Nat.not_le_of_lt hlow)
      · exact Or.inr ⟨hmover, Or.inl hpart⟩
      · exact Or.inl hused
    · by_cases hhead : (arena.route id).span.head ∈ (arena.route id).span.movers
      · exact (consumed_low id harg hhead s hs hlow).imp_right fun hmover => ⟨hmover, Or.inr harg⟩
      · rcases own with ⟨hge, -⟩ | hmover | hused
        · exact absurd ((arg_low id harg hhead).trans hge) (Nat.not_le_of_lt hlow)
        · exact Or.inr ⟨hmover, Or.inr harg⟩
        · exact Or.inl hused
    · rcases own with ⟨hge, -⟩ | hmover | hused
      · exact absurd ((adjunct_low id hadjunct).trans hge) (Nat.not_le_of_lt hlow)
      · exact absurd (mover_low id hadjunct s hmover) (Nat.not_le_of_lt hlow)
      · exact Or.inl hused

end Settled

end Arena

section Built

variable {graph : Graph} {options : Options} {read : Array WordPart} {state : SearchState}

lemma SearchState.Attachable.attaching (h : state.AllBuilt graph options read) {base sub : RouteId}
    {relation : Relation} (attachable : state.Attachable graph options base sub relation) :
    state.arena.Attaching (state.arena.route base) sub relation :=
  ⟨h.fits attachable.base_lt, h.fits attachable.sub_lt, attachable.disjoint, attachable.unfilled⟩

lemma SearchState.AllBuilt.composed (h : state.AllBuilt graph options read) {id : RouteId}
    (hid : id < state.arena.size) : state.arena.Composed (state.arena.route id) :=
  h.induct (motive := fun _ route => state.arena.Composed route)
    (fun _ part _ => Arena.composed_leaf part _)
    (fun _ _ _ _ _ _ attachable base _ => base.extend (attachable.attaching h)) hid

lemma SearchState.AllBuilt.le_high (h : state.AllBuilt graph options read) {id : RouteId}
    (hid : id < state.arena.size) :
    ∀ s ∈ (state.arena.route id).signals, s ≤ (state.arena.route id).span.high := by
  refine h.induct (motive := fun _ route => ∀ s ∈ route.signals, s ≤ route.span.high) ?_ ?_ hid
  · intro id part _ s hs
    exact Nat.le_of_eq (SignalSet.mem_singleton.1 hs)
  · intro id base sub relation _ _ _ hbase hsub s hs
    rw [SearchState.attach, Route.signals_extend, SignalSet.mem_union] at hs
    rw [SearchState.attach, Route.high_extend]
    rcases hs with hs | hs
    · exact (hbase s hs).trans (le_max_left _ _)
    · exact (hsub s hs).trans (le_max_right _ _)

lemma SearchState.AllBuilt.settled (h : state.AllBuilt graph options read) {id : RouteId}
    (hid : id < state.arena.size) : state.arena.Settled (state.arena.route id) := by
  obtain ⟨steps, assembled⟩ := h.exists_assembled hid
  exact ⟨h.composed hid, ⟨_, _, assembled.scope⟩, h.fits hid, h.le_high hid⟩

end Built

namespace Session

variable {session : Session}

/-- No signal of a stored route lies above its stretch, and its span accounts for all of them exactly
if every signal of a component that lies below the stretch is a used mover of the component, or a
free one of the remnant or the argument. Where the components account for their own signals, this
can only fail for an argument that moves and for the movers of an adjunct. -/
theorem accounting_iff (reachable : Reachable session) {id : RouteId}
    (hid : id < session.search.arena.size) :
    let arena := session.search.arena
    let route := arena.route id
    (∀ s ∈ route.signals, s ≤ route.span.high) ∧
    ((∀ s ∈ route.signals, route.span.Accounts s) ↔
      ∀ component ∈ route.components, ∀ s ∈ (arena.route component).signals, s < route.span.low →
        s ∈ (arena.route component).span.usedMovers ∨ s ∈ (arena.route component).span.movers ∧
          (route.part = some component ∨ route.arg = some component)) ∧
    ((∀ component ∈ route.components, ∀ s ∈ (arena.route component).signals,
        (arena.route component).span.Accounts s) →
      ((∀ s ∈ route.signals, route.span.Accounts s) ↔
        (∀ arg, route.arg = some arg → (arena.route arg).span.head ∈ (arena.route arg).span.movers →
          ∀ s ∈ (arena.route arg).signals, s < route.span.low →
            s ∈ (arena.route arg).span.usedMovers ∨ s ∈ (arena.route arg).span.movers) ∧
        ∀ adjunct ∈ route.adjuncts, ∀ s ∈ (arena.route adjunct).span.movers,
          route.span.low ≤ s)) := by
  have settled := reachable.stage.allBuilt.1.settled hid
  exact ⟨settled.le_high, settled.accounts_all_iff, settled.accounts_all_iff_of_components⟩

/-- A modifier, a free noun that hosts it, and a head that takes the noun. -/
def frontedEntries : List Entry :=
  [⟨"x", [⟨[], [], [⟨none, "A", []⟩]⟩]⟩,
    ⟨"m", [⟨[], [⟨some .adjoin, "A", []⟩], [⟨none, "N", []⟩, ⟨none, "moves", []⟩]⟩]⟩,
    ⟨"v", [⟨[], [⟨some .select, "N", []⟩], [⟨none, "V", []⟩]⟩]⟩]

/-- The session of a modified noun in front of its head. -/
def fronted : Session :=
  ofEntries (.ofEntries frontedEntries) { Options.standard with maxRoutes := 10 } [0, 1, 2]

lemma fronted_started :
    Session.start (.ofEntries frontedEntries) ["x", "m", "v"]
      { Options.standard with maxRoutes := 10 } = .ok fronted := by
  have found : lookupAll (.ofEntries frontedEntries) ["x", "m", "v"] = .ok [0, 1, 2] := by
    decide +kernel
  rw [Session.start, found]
  rfl

lemma fronted_reachable (n : Nat) : Reachable (fronted.stepped n) :=
  (Reachable.start fronted_started).stepped n

/-- The head with the modified noun covers the sentence, but its span tells nothing of the
modifier. -/
theorem fronted_modifier_unaccounted :
    Reachable (fronted.stepped 3) ∧ 5 < (fronted.stepped 3).search.arena.size ∧
      (fronted.stepped 3).covers ((fronted.stepped 3).search.arena.route 5) = true ∧
      1 ∈ ((fronted.stepped 3).search.arena.route 5).signals ∧
      ¬((fronted.stepped 3).search.arena.route 5).span.Accounts 1 :=
  ⟨fronted_reachable 3, by decide +kernel⟩

/-- The head with the noun alone has used the noun as a mover, and the noun is the only signal below
the head. -/
theorem fronted_noun_accounted :
    ((fronted.stepped 3).search.arena.route 4).span.low = 3 ∧
      ∀ s ∈ ((fronted.stepped 3).search.arena.route 4).signals,
        ((fronted.stepped 3).search.arena.route 4).span.Accounts s := by
  have hid : (4 : RouteId) < (fronted.stepped 3).search.arena.size := by decide +kernel
  obtain ⟨-, accounts_iff, -⟩ := accounting_iff (fronted_reachable 3) hid
  exact ⟨by decide +kernel, accounts_iff.2 (by decide +kernel)⟩

end Session

end MergeGrammar
