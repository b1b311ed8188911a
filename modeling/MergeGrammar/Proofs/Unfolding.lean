import Mathlib.Data.List.Basic
import MergeGrammar.Derivation.Basic
import MergeGrammar.Proofs.Lineage

/-!
# Unfolding of routes

In an arena whose routes come after their components, the derivation of a route is the route with
the derivations of its components. Attaching a component to a route attaches its derivation to the
derivation of the route.
-/

namespace MergeGrammar

section Slots

variable {α β : Type} {f : α → β}

/-- A map that tells the contents of two slots apart tells the slots apart. -/
lemma slot_eq_of_map_eq {slot other : Option α}
    (unique : ∀ a, slot = some a → ∀ b, other = some b → f a = f b → a = b)
    (heq : slot.map f = other.map f) : slot = other := by
  cases slot with
  | none => exact (Option.map_eq_none_iff.1 heq.symm).symm
  | some a =>
    cases other with
    | none => cases heq
    | some b => rw [unique a rfl b rfl (Option.some.inj heq)]

/-- A map that tells the members of two lists apart tells the lists apart. -/
lemma list_eq_of_map_eq {items others : List α}
    (unique : ∀ a ∈ items, ∀ b ∈ others, f a = f b → a = b)
    (heq : items.map f = others.map f) : items = others := by
  induction items generalizing others with
  | nil => exact (List.map_eq_nil_iff.1 heq.symm).symm
  | cons a items ih =>
    cases others with
    | nil => cases heq
    | cons b others =>
      rw [List.map_cons, List.map_cons, List.cons.injEq] at heq
      rw [unique a List.mem_cons_self b List.mem_cons_self heq.1,
        ih (fun x hx y hy => unique x (List.mem_cons_of_mem _ hx) y (List.mem_cons_of_mem _ hy))
          heq.2]

lemma slot_mapM_eq_some {f : α → Option β} {g : α → β} {slot : Option α}
    (h : ∀ a, slot = some a → f a = some (g a)) : slot.mapM f = some (slot.map g) := by
  cases slot with
  | none => rfl
  | some a => simp [h a rfl]

lemma list_mapM_eq_some {f : α → Option β} {g : α → β} {items : List α}
    (h : ∀ a ∈ items, f a = some (g a)) : items.mapM f = some (items.map g) := by
  induction items with
  | nil => rfl
  | cons a items ih =>
    have rest := ih fun b hb => h b (List.mem_cons_of_mem _ hb)
    simp [h a List.mem_cons_self, rest]

end Slots

namespace Derivation

def attach : Derivation → Derivation → Relation → Derivation
  | node root part _ adjuncts, sub, .argument => node root part (some sub) adjuncts
  | node root part arg adjuncts, sub, .adjunction => node root part arg (adjuncts ++ [sub])
  | node root _ arg adjuncts, sub, .part => node root (some sub) arg adjuncts

/-- The slot of a relation is free. Adjuncts always find room. -/
def HasRoom : Derivation → Relation → Prop
  | node _ _ arg _, .argument => arg = none
  | _, .adjunction => True
  | node _ part _ _, .part => part = none

def slotParts (slot : Option Derivation) : List WordPart := slot.elim [] wordParts

lemma wordParts_node (root : WordPart) (part arg : Option Derivation)
    (adjuncts : List Derivation) : wordParts (.node root part arg adjuncts) =
      root :: (slotParts part ++ slotParts arg ++ wordPartsOfAll adjuncts) := by
  cases part <;> cases arg <;> simp [wordParts, slotParts]

lemma wordPartsOfAll_append (ds es : List Derivation) :
    wordPartsOfAll (ds ++ es) = wordPartsOfAll ds ++ wordPartsOfAll es := by
  induction ds with
  | nil => simp [wordPartsOfAll]
  | cons d ds ih => simp [wordPartsOfAll, ih]

lemma wordPartsOfAll_eq (ds : List Derivation) : wordPartsOfAll ds = ds.flatMap wordParts := by
  induction ds with
  | nil => rfl
  | cons d ds ih => rw [wordPartsOfAll, ih, List.flatMap_cons]

lemma root_mem_wordParts (d : Derivation) : d.root ∈ d.wordParts := by
  obtain ⟨root, part, arg, adjuncts⟩ := d
  rw [wordParts_node]
  exact List.mem_cons_self

lemma mem_wordParts_of_slot {root part : WordPart} {remnant arg : Option Derivation}
    {adjuncts : List Derivation} {d : Derivation} (hd : remnant = some d ∨ arg = some d ∨ d ∈ adjuncts)
    (hpart : part ∈ d.wordParts) : part ∈ (node root remnant arg adjuncts).wordParts := by
  rw [wordParts_node, wordPartsOfAll_eq]
  refine List.mem_cons_of_mem _ ?_
  rcases hd with rfl | rfl | hd
  · exact List.mem_append_left _ (List.mem_append_left _ hpart)
  · exact List.mem_append_left _ (List.mem_append_right _ hpart)
  · exact List.mem_append_right _ (List.mem_flatMap.2 ⟨d, hd, hpart⟩)

/-- Attaching to a free slot adds the word parts of what is attached. -/
lemma wordParts_attach {base sub : Derivation} {relation : Relation} (room : base.HasRoom relation) :
    (base.attach sub relation).wordParts.Perm (base.wordParts ++ sub.wordParts) := by
  obtain ⟨root, part, arg, adjuncts⟩ := base
  refine List.perm_iff_count.2 fun x => ?_
  cases relation with
  | argument =>
    rw [HasRoom] at room
    subst room
    simp only [attach, wordParts_node, slotParts, Option.elim, List.count_cons, List.count_append,
      List.count_nil]
    omega
  | adjunction =>
    simp only [attach, wordParts_node, wordPartsOfAll_append, wordPartsOfAll, List.count_cons,
      List.count_append, List.count_nil]
    omega
  | part =>
    rw [HasRoom] at room
    subst room
    simp only [attach, wordParts_node, slotParts, Option.elim, List.count_cons, List.count_append,
      List.count_nil]
    omega

/-- All word parts of the derivation have been read. -/
def StandsIn (read : Array WordPart) (d : Derivation) : Prop :=
  ∀ part ∈ d.wordParts, part.StandsIn read

lemma StandsIn.component {read : Array WordPart} {root : WordPart} {part arg : Option Derivation}
    {adjuncts : List Derivation} (h : (node root part arg adjuncts).StandsIn read) {d : Derivation}
    (hd : part = some d ∨ arg = some d ∨ d ∈ adjuncts) : d.StandsIn read :=
  fun p hp => h p (mem_wordParts_of_slot hd hp)

lemma standsIn_node {read : Array WordPart} {root : WordPart} {part arg : Option Derivation}
    {adjuncts : List Derivation} (standing : root.StandsIn read)
    (h : ∀ d, part = some d ∨ arg = some d ∨ d ∈ adjuncts → d.StandsIn read) :
    (node root part arg adjuncts).StandsIn read := by
  intro p hp
  rw [wordParts_node, wordPartsOfAll_eq] at hp
  have slot : ∀ slot : Option Derivation, p ∈ slotParts slot → ∃ d, slot = some d ∧ p ∈ d.wordParts := by
    intro slot hslot
    cases slot with
    | none => exact absurd hslot List.not_mem_nil
    | some d => exact ⟨d, rfl, hslot⟩
  rcases List.mem_cons.1 hp with rfl | hp
  · exact standing
  · rcases List.mem_append.1 hp with hp | hp
    · rcases List.mem_append.1 hp with hp | hp
      · obtain ⟨d, hd, hpart⟩ := slot part hp
        exact h d (Or.inl hd) p hpart
      · obtain ⟨d, hd, hpart⟩ := slot arg hp
        exact h d (Or.inr (Or.inl hd)) p hpart
    · obtain ⟨d, hd, hpart⟩ := List.mem_flatMap.1 hp
      exact h d (Or.inr (Or.inr hd)) p hpart

lemma StandsIn.root {read : Array WordPart} {d : Derivation} (h : d.StandsIn read) :
    d.root.StandsIn read := h _ d.root_mem_wordParts

end Derivation

namespace Route

variable {built other : Array Derivation}

lemma unfold_congr {route : Route} (h : ∀ id ∈ route.components, built[id]? = other[id]?) :
    route.unfold built = route.unfold other := by
  have hbind : ∀ slot : Option RouteId, (∀ id, slot = some id → built[id]? = other[id]?) →
      slot.bind (built[·]?) = slot.bind (other[·]?) := by
    intro slot hslot
    cases slot with
    | none => rfl
    | some id => exact hslot id rfl
  have hpart := hbind route.part fun id hid => h id (mem_components.2 (Or.inl hid))
  have harg := hbind route.arg fun id hid => h id (mem_components.2 (Or.inr (Or.inl hid)))
  have hadjuncts : route.adjuncts.filterMap (built[·]?) = route.adjuncts.filterMap (other[·]?) :=
    List.filterMap_congr fun id hid => h id (mem_components.2 (Or.inr (Or.inr hid)))
  rw [unfold, unfold, hpart, harg, hadjuncts]

lemma unfold_leaf (root : WordPart) (free : Bool) :
    (leaf root free).unfold built = .node root none none [] := rfl

lemma unfold_extend {base sub : Route} {id : RouteId} {d : Derivation} (hd : built[id]? = some d)
    (relation : Relation) :
    (base.extend id sub relation).unfold built = (base.unfold built).attach d relation := by
  cases relation <;> simp [extend, unfold, Derivation.attach, hd]

end Route

namespace Arena

lemma get?_eq_route {arena : Arena} {id : RouteId} (hid : id < arena.size) :
    arena.get? id = some (arena.route id) := by
  rw [get?, route, Array.getD_eq_getD_getElem?, Array.getElem?_eq_getElem hid, Option.getD_some]

lemma derivations_push (arena : Arena) (route : Route) :
    (arena.push route).derivations =
      arena.derivations.push (route.unfold arena.derivations) :=
  Array.foldl_push

/-- Every component of a route comes before it. -/
def Descends (arena : Arena) : Prop :=
  ∀ id, id < arena.size → ∀ other ∈ (arena.route id).components, other < id

lemma Descends.of_push {arena : Arena} {route : Route} (h : (arena.push route).Descends) :
    arena.Descends := by
  intro id hid
  have hpush := h id (by rw [size_push]; omega)
  rwa [route_push_of_lt hid] at hpush

lemma size_derivations (arena : Arena) : arena.derivations.size = arena.size := by
  obtain ⟨routes⟩ := arena
  induction hn : routes.size generalizing routes with
  | zero =>
    rw [Array.eq_empty_of_size_eq_zero hn]
    rfl
  | succ n ih =>
    obtain ⟨init, route, rfl⟩ := Array.exists_push_of_size_eq_add_one hn
    have hinit : init.size = n := by simpa using hn
    have hsize := ih init hinit
    change (Arena.push ⟨init⟩ route).derivations.size = (Arena.push ⟨init⟩ route).size
    rw [derivations_push, Array.size_push, hsize, size_push]

/-- The derivation of a route has the derivations of its components. -/
theorem derivations_getElem? {arena : Arena} (h : arena.Descends) {id : RouteId}
    (hid : id < arena.size) :
    arena.derivations[id]? = some ((arena.route id).unfold arena.derivations) := by
  obtain ⟨routes⟩ := arena
  induction hn : routes.size generalizing routes with
  | zero => exact absurd (hn ▸ hid) (Nat.not_lt_zero id)
  | succ n ih =>
    obtain ⟨init, route, rfl⟩ := Array.exists_push_of_size_eq_add_one hn
    have hinit : init.size = n := by simpa using hn
    let earlier : Arena := ⟨init⟩
    have hearlier : earlier.Descends := Descends.of_push h
    change (earlier.push route).derivations[id]? =
      some (((earlier.push route).route id).unfold (earlier.push route).derivations)
    have hsize : earlier.derivations.size = n := (size_derivations earlier).trans hinit
    have hcongr : ((earlier.push route).route id).unfold (earlier.push route).derivations =
        ((earlier.push route).route id).unfold earlier.derivations := by
      refine Route.unfold_congr fun other hother => ?_
      have hlt : other < id := h id hid other hother
      have hle : id < n + 1 := hn ▸ hid
      rw [derivations_push, Array.getElem?_push, if_neg (by rw [hsize]; lia)]
    rw [hcongr, derivations_push, Array.getElem?_push, hsize]
    by_cases hlast : id = n
    · rw [if_pos hlast, hlast, ← hinit]
      exact congrArg (fun route : Route => some (route.unfold earlier.derivations))
        (route_push_size earlier route).symm
    · have hlt : id < earlier.size := by
        have hle : id < n + 1 := hn ▸ hid
        change id < init.size
        lia
      rw [if_neg hlast, route_push_of_lt hlt]
      exact ih init hearlier hlt hinit

end Arena

namespace SearchState

variable {graph : Graph} {options : Options} {read : Array WordPart} {state : SearchState}

/-- The derivation of a stored route. -/
def tree (state : SearchState) (id : RouteId) : Derivation :=
  (state.arena.route id).unfold state.arena.derivations

section Built

variable (h : state.AllBuilt graph options read)
include h

lemma AllBuilt.getElem?_derivations {id : RouteId} (hid : id < state.arena.size) :
    state.arena.derivations[id]? =
      some ((state.arena.route id).unfold state.arena.derivations) :=
  Arena.derivations_getElem? (fun _ hid _ hother => h.component_lt hid hother) hid

lemma AllBuilt.component_lt_size {id other : RouteId} (hid : id < state.arena.size)
    (hother : other ∈ (state.arena.route id).components) : other < state.arena.size :=
  (h.component_lt hid hother).trans hid

lemma AllBuilt.tree_eq {id : RouteId} (hid : id < state.arena.size) :
    state.tree id = .node (state.arena.route id).root ((state.arena.route id).part.map state.tree)
      ((state.arena.route id).arg.map state.tree)
      ((state.arena.route id).adjuncts.map state.tree) := by
  have hslot : ∀ slot : Option RouteId, (∀ other, slot = some other → other < state.arena.size) →
      slot.bind (state.arena.derivations[·]?) = slot.map state.tree := by
    intro slot hlt
    cases slot with
    | none => rfl
    | some other => exact h.getElem?_derivations (hlt other rfl)
  have hpart := hslot (state.arena.route id).part fun other hother =>
    h.component_lt_size hid (Route.mem_components.2 (Or.inl hother))
  have harg := hslot (state.arena.route id).arg fun other hother =>
    h.component_lt_size hid (Route.mem_components.2 (Or.inr (Or.inl hother)))
  have hadjuncts : (state.arena.route id).adjuncts.filterMap (state.arena.derivations[·]?) =
      (state.arena.route id).adjuncts.map state.tree :=
    List.filterMap_eq_map_iff_forall_eq_some.2 fun other hother =>
      h.getElem?_derivations (h.component_lt_size hid (Route.mem_components.2 (Or.inr (Or.inr hother))))
  rw [tree, Route.unfold, hpart, harg, hadjuncts]

/-- The word parts in the derivation of a stored route have been read. -/
lemma AllBuilt.standsIn_tree {id : RouteId} (hid : id < state.arena.size) :
    (state.tree id).StandsIn read := by
  induction id using Nat.strong_induction_on with
  | _ id ih =>
    have component : ∀ other ∈ (state.arena.route id).components,
        (state.tree other).StandsIn read := fun other hother =>
      ih other (h.component_lt hid hother) (h.component_lt_size hid hother)
    rw [h.tree_eq hid]
    refine Derivation.standsIn_node (h.root_standsIn hid) fun d hd => ?_
    rcases hd with hd | hd | hd
    · obtain ⟨other, hother, rfl⟩ := Option.map_eq_some_iff.1 hd
      exact component other (Route.mem_components.2 (Or.inl hother))
    · obtain ⟨other, hother, rfl⟩ := Option.map_eq_some_iff.1 hd
      exact component other (Route.mem_components.2 (Or.inr (Or.inl hother)))
    · obtain ⟨other, hother, rfl⟩ := List.mem_map.1 hd
      exact component other (Route.mem_components.2 (Or.inr (Or.inr hother)))

end Built

end SearchState

/-- The derivations of a session are those of its stored routes. -/
lemma Session.Stage.getElem?_iff {session : Session} (h : Stage session) {id : RouteId}
    {d : Derivation} : session.derivations[id]? = some d ↔
      id < session.search.arena.size ∧ session.search.tree id = d := by
  have hget := fun (hid : id < session.search.arena.size) => h.allBuilt.1.getElem?_derivations hid
  constructor
  · intro hd
    obtain ⟨hlt, -⟩ := Array.getElem?_eq_some_iff.1 hd
    have hid : id < session.search.arena.size := by
      rwa [derivations, Arena.size_derivations] at hlt
    exact ⟨hid, Option.some.inj ((hget hid).symm.trans hd)⟩
  · rintro ⟨hid, rfl⟩
    exact hget hid

end MergeGrammar
