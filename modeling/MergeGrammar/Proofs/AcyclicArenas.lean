import Mathlib.Data.Finset.Card
import Mathlib.Data.Finset.Range
import Mathlib.Logic.Relation
import MergeGrammar.Proofs.Outlines

/-!
# Acyclic arenas

Trees, costs and the texts of routes are got by following the numbers of components. This ends in
every arena in which no route is found again below itself, wherever in the arena a component stands.
It goes no deeper than there are routes, and what it leads to is the one derivation whose components
are the derivations of the components.
-/

namespace MergeGrammar

namespace Arena

variable {arena : Arena}

/-- `sub` is a component of the route with the number `id`. -/
def Uses (arena : Arena) (id sub : RouteId) : Prop :=
  id < arena.size ∧ sub ∈ (arena.route id).components

/-- All components are routes of the arena, and none is found again below itself. -/
structure Acyclic (arena : Arena) : Prop where
  stored : ∀ {id sub}, arena.Uses id sub → sub < arena.size
  irrefl : ∀ id, ¬Relation.TransGen arena.Uses id id

/-- The derivation that the numbers lead to from a route of an acyclic arena. -/
def unfolding (arena : Arena) (id : RouteId) : Derivation :=
  (arena.unfoldWithin arena.size id).getD default

/-! ### Ranks -/

/-- A rank of the routes with components of lower rank. It bounds how deep numbers lead. -/
structure Ranks (arena : Arena) (rank : RouteId → Nat) : Prop where
  lt_size : ∀ {id}, id < arena.size → rank id < arena.size
  stored : ∀ {id sub}, arena.Uses id sub → sub < arena.size
  descends : ∀ {id sub}, arena.Uses id sub → rank sub < rank id

lemma Ranks.acyclic {rank : RouteId → Nat} (h : arena.Ranks rank) : arena.Acyclic where
  stored := h.stored
  irrefl id cycle := by
    have below : ∀ {other}, Relation.TransGen arena.Uses id other → rank other < rank id := by
      intro other chain
      induction chain with
      | single uses => exact h.descends uses
      | tail _ uses ih => exact (h.descends uses).trans ih
    exact Nat.lt_irrefl _ (below cycle)

/-- An arena is acyclic if components come before what is built from them. -/
lemma Descends.ranks (h : arena.Descends) : arena.Ranks id where
  lt_size hid := hid
  stored uses := (h _ uses.1 _ uses.2).trans uses.1
  descends uses := h _ uses.1 _ uses.2

open Classical in
/-- The routes below a route. -/
noncomputable def below (arena : Arena) (id : RouteId) : Finset RouteId :=
  {sub ∈ Finset.range arena.size | Relation.TransGen arena.Uses id sub}

lemma mem_below {id sub : RouteId} : sub ∈ arena.below id ↔
    sub < arena.size ∧ Relation.TransGen arena.Uses id sub := by
  simp [below]

lemma Acyclic.below_ssubset (h : arena.Acyclic) {id sub : RouteId} (uses : arena.Uses id sub) :
    arena.below sub ⊂ arena.below id := by
  have subset : arena.below sub ⊆ arena.below id := by
    intro other hother
    obtain ⟨hlt, chain⟩ := mem_below.1 hother
    exact mem_below.2 ⟨hlt, chain.head uses⟩
  refine (Finset.ssubset_iff_of_subset subset).2 ⟨sub, mem_below.2 ⟨h.stored uses, .single uses⟩, ?_⟩
  exact fun hsub => h.irrefl sub (mem_below.1 hsub).2

/-- In an acyclic arena the number of routes below a route is a rank. -/
lemma Acyclic.ranks (h : arena.Acyclic) : arena.Ranks fun id => (arena.below id).card where
  lt_size {id} hid := by
    -- The route itself is not among those below it.
    have subset : arena.below id ⊆ Finset.range arena.size :=
      fun sub hsub => Finset.mem_range.2 (mem_below.1 hsub).1
    have proper : arena.below id ⊂ Finset.range arena.size :=
      (Finset.ssubset_iff_of_subset subset).2
        ⟨id, Finset.mem_range.2 hid, fun hmem => h.irrefl id (mem_below.1 hmem).2⟩
    simpa only [Finset.card_range] using Finset.card_lt_card proper
  stored := h.stored
  descends uses := Finset.card_lt_card (h.below_ssubset uses)

/-! ### Unfolding -/

lemma Ranks.exists_unfoldWithin {rank : RouteId → Nat} (h : arena.Ranks rank) {id : RouteId}
    (hid : id < arena.size) : ∃ d, ∀ depth, rank id < depth → arena.unfoldWithin depth id = some d := by
  induction hn : rank id using Nat.strong_induction_on generalizing id with
  | _ n ih =>
    subst hn
    have component : ∀ sub ∈ (arena.route id).components,
        ∃ d, ∀ depth, rank sub < depth → arena.unfoldWithin depth sub = some d := by
      intro sub hsub
      have uses : arena.Uses id sub := ⟨hid, hsub⟩
      exact ih _ (h.descends uses) (h.stored uses) rfl
    choose! tree htree using component
    refine ⟨.node (arena.route id).root ((arena.route id).part.map tree)
      ((arena.route id).arg.map tree) ((arena.route id).adjuncts.map tree), fun depth deep => ?_⟩
    obtain ⟨depth, rfl⟩ := Nat.exists_eq_succ_of_ne_zero (Nat.ne_zero_of_lt deep)
    refine unfoldWithin_succ hid fun sub hsub => htree sub hsub depth ?_
    exact (h.descends ⟨hid, hsub⟩).trans_le (Nat.le_of_lt_succ deep)

namespace Acyclic

variable (h : arena.Acyclic) {id : RouteId}
include h

/-- Numbers lead no deeper than there are routes. -/
theorem unfoldWithin_eq (hid : id < arena.size) {depth : Nat} (deep : arena.size ≤ depth) :
    arena.unfoldWithin depth id = some (arena.unfolding id) := by
  obtain ⟨d, hd⟩ := h.ranks.exists_unfoldWithin hid
  have lt_size := h.ranks.lt_size hid
  rw [unfolding, hd _ lt_size, hd _ (lt_size.trans_le deep), Option.getD_some]

/-- The derivation of a route has the derivations of its components. -/
theorem unfolding_eq (hid : id < arena.size) : arena.unfolding id =
    .node (arena.route id).root ((arena.route id).part.map arena.unfolding)
      ((arena.route id).arg.map arena.unfolding)
      ((arena.route id).adjuncts.map arena.unfolding) := by
  refine Option.some.inj ((h.unfoldWithin_eq hid (Nat.le_succ _)).symm.trans ?_)
  exact unfoldWithin_succ hid fun sub hsub => h.unfoldWithin_eq (h.stored ⟨hid, hsub⟩) le_rfl

lemma root_unfolding (hid : id < arena.size) : (arena.unfolding id).root = (arena.route id).root := by
  rw [h.unfolding_eq hid]
  rfl

/-- No other assignment of derivations goes along with the components. -/
theorem eq_unfolding {tree : RouteId → Derivation}
    (htree : ∀ id < arena.size, tree id = .node (arena.route id).root
      ((arena.route id).part.map tree) ((arena.route id).arg.map tree)
      ((arena.route id).adjuncts.map tree)) (hid : id < arena.size) :
    tree id = arena.unfolding id := by
  induction hn : (arena.below id).card using Nat.strong_induction_on generalizing id with
  | _ n ih =>
    subst hn
    have component : ∀ sub ∈ (arena.route id).components, tree sub = arena.unfolding sub := by
      intro sub hsub
      have uses : arena.Uses id sub := ⟨hid, hsub⟩
      exact ih _ (h.ranks.descends uses) (h.stored uses) rfl
    rw [htree id hid, h.unfolding_eq hid]
    congr 1
    · exact Option.map_congr fun sub hsub => component sub (Route.mem_components.2 (Or.inl hsub))
    · exact Option.map_congr fun sub hsub =>
        component sub (Route.mem_components.2 (Or.inr (Or.inl hsub)))
    · exact List.map_congr_left fun sub hsub =>
        component sub (Route.mem_components.2 (Or.inr (Or.inr hsub)))

end Acyclic

end Arena

namespace Session

variable {session : Session}

/-- The routes of a session form an acyclic arena, and its derivations are what the numbers lead
to. -/
theorem derivations_unfold (reachable : Reachable session) :
    session.search.arena.Acyclic ∧ ∀ {id : RouteId} {d : Derivation},
      session.derivations[id]? = some d ↔
        id < session.search.arena.size ∧ session.search.arena.unfolding id = d := by
  have stage := reachable.stage
  have built := stage.allBuilt.1
  have descends : session.search.arena.Descends := fun _ hid _ hother =>
    built.component_lt hid hother
  have acyclic := descends.ranks.acyclic
  refine ⟨acyclic, fun {id d} => stage.getElem?_iff.trans (and_congr_right fun hid => ?_)⟩
  rw [acyclic.eq_unfolding (fun _ => built.tree_eq) hid]

end Session

end MergeGrammar
