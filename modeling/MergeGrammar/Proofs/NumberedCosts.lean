import MergeGrammar.Derivation.Cost
import MergeGrammar.Proofs.Appearance
import MergeGrammar.Proofs.DerivationSoundness

/-!
# Costs by number

The cost of a derivation can be counted on the routes themselves: components are looked up by their
numbers, and the outermost word parts of a component by its least and its greatest signal. On stored
routes every one of these numbers is in use, and what comes out is the cost of the derivation.
-/

namespace MergeGrammar

/-- The word part that was read at a signal. -/
def partAt? (read : Array WordPart) (signal : Signal) : Option WordPart :=
  if signal = 0 then none else read[signal - 1]?

lemma WordPart.StandsIn.partAt?_eq {read : Array WordPart} {part : WordPart}
    (h : part.StandsIn read) : partAt? read part.signal = some part := by
  rw [partAt?, if_neg h.1.ne', h.2]

/-- The cost of a route by numbers. There is none if a number is not in use or if numbers lead deeper
than the first argument allows. -/
def Arena.costWithin {α : Type} (scale : CostScale α) (read : Array WordPart) (arena : Arena) :
    Nat → RouteId → Option α
  | 0, _ => none
  | depth + 1, id => do
    let route ← arena.get? id
    let remnant ← route.part.elim (some scale.zero) (arena.costWithin scale read depth)
    (route.arg.toList ++ route.adjuncts).foldlM (fun total other => do
      let sub ← arena.get? other
      match sub.signals.toList.head?, sub.signals.toList.getLast? with
      | some least, some greatest =>
        let first ← partAt? read least
        let last ← partAt? read greatest
        let inner ← arena.costWithin scale read depth other
        return scale.add total (scale.add (relationCost scale route.root sub.root first last) inner)
      | _, _ => return total) remnant

/-! ### Outermost word parts -/

namespace SignalSet

variable {set : SignalSet} {s : Signal}

lemma head?_eq_some (hs : s ∈ set) (least : ∀ x ∈ set, s ≤ x) : set.toList.head? = some s := by
  obtain ⟨xs, ascending⟩ := set
  cases xs with
  | nil => exact absurd hs List.not_mem_nil
  | cons a xs =>
    have hle := least a List.mem_cons_self
    rcases List.mem_cons.1 hs with rfl | hs
    · rfl
    · exact absurd ((List.pairwise_cons.1 ascending).1 s hs) (Nat.not_lt_of_le hle)

lemma getLast?_eq_some (hs : s ∈ set) (greatest : ∀ x ∈ set, x ≤ s) :
    set.toList.getLast? = some s := by
  obtain ⟨xs, ascending⟩ := set
  change s ∈ xs at hs
  change ∀ x ∈ xs, x ≤ s at greatest
  rcases List.eq_nil_or_concat xs with rfl | ⟨init, last, heq⟩
  · exact absurd hs List.not_mem_nil
  · rw [List.concat_eq_append] at heq
    subst heq
    have hle := greatest last (List.mem_append_right _ (List.mem_singleton.2 rfl))
    rw [List.getLast?_concat]
    rcases List.mem_append.1 hs with hs | hs
    · have hlt := (List.pairwise_append.1 ascending).2.2 s hs last (List.mem_singleton.2 rfl)
      exact absurd hlt (Nat.not_lt_of_le hle)
    · rw [List.mem_singleton.1 hs]

end SignalSet

/-- The choice of a word part that no other one comes before. -/
lemma foldl_first (before : WordPart → WordPart → Prop) [DecidableRel before]
    (asymm : ∀ a b, before a b → ¬before b a)
    (cotrans : ∀ a b c, ¬before a b → ¬before b c → ¬before a c) (parts : List WordPart)
    (best : WordPart) :
    parts.foldl (fun best part => if before part best then part else best) best ∈ best :: parts ∧
      ∀ part ∈ best :: parts,
        ¬before part (parts.foldl (fun best part => if before part best then part else best) best) := by
  induction parts generalizing best with
  | nil =>
    refine ⟨List.mem_singleton.2 rfl, fun part hpart hbefore => ?_⟩
    rw [List.mem_singleton.1 hpart] at hbefore
    exact asymm _ _ hbefore hbefore
  | cons next parts ih =>
    rw [List.foldl_cons]
    obtain ⟨hmem, hfirst⟩ := ih (if before next best then next else best)
    have hchosen := hfirst _ List.mem_cons_self
    have hbest : ¬before best (if before next best then next else best) := by
      split
      · next hnext => exact asymm _ _ hnext
      · exact fun h => asymm _ _ h h
    have hnext : ¬before next (if before next best then next else best) := by
      split
      · exact fun h => asymm _ _ h h
      · assumption
    refine ⟨?_, fun part hpart => ?_⟩
    · rcases List.mem_cons.1 hmem with heq | hmem
      · rw [heq]
        split
        · exact List.mem_cons_of_mem _ List.mem_cons_self
        · exact List.mem_cons_self
      · exact List.mem_cons_of_mem _ (List.mem_cons_of_mem _ hmem)
    · rcases List.mem_cons.1 hpart with rfl | hpart
      · exact cotrans _ _ _ hbest hchosen
      · rcases List.mem_cons.1 hpart with rfl | hpart
        · exact cotrans _ _ _ hnext hchosen
        · exact hfirst part (List.mem_cons_of_mem _ hpart)

namespace Derivation

/-- The root is one of the word parts, so starting from it makes no difference. -/
lemma foldl_wordParts (before : WordPart → WordPart → Prop) [DecidableRel before]
    (asymm : ∀ a b, before a b → ¬before b a)
    (cotrans : ∀ a b c, ¬before a b → ¬before b c → ¬before a c) (d : Derivation) :
    d.wordParts.foldl (fun best part => if before part best then part else best) d.root ∈
        d.wordParts ∧
      ∀ part ∈ d.wordParts, ¬before part
        (d.wordParts.foldl (fun best part => if before part best then part else best) d.root) := by
  obtain ⟨hmem, hfirst⟩ := foldl_first before asymm cotrans d.wordParts d.root
  refine ⟨?_, fun part hpart => hfirst part (List.mem_cons_of_mem _ hpart)⟩
  rcases List.mem_cons.1 hmem with heq | hmem
  · rw [heq]
    exact d.root_mem_wordParts
  · exact hmem

lemma leftmost_spec (d : Derivation) :
    d.leftmost ∈ d.wordParts ∧ ∀ part ∈ d.wordParts, d.leftmost.signal ≤ part.signal := by
  obtain ⟨hmem, hfirst⟩ := d.foldl_wordParts (fun a b => a.signal < b.signal)
    (fun _ _ => Nat.lt_asymm) fun a b c hab hbc => by lia
  exact ⟨hmem, fun part hpart => Nat.le_of_not_lt (hfirst part hpart)⟩

lemma rightmost_spec (d : Derivation) :
    d.rightmost ∈ d.wordParts ∧ ∀ part ∈ d.wordParts, part.signal ≤ d.rightmost.signal := by
  obtain ⟨hmem, hfirst⟩ := d.foldl_wordParts (fun a b => b.signal < a.signal)
    (fun _ _ => Nat.lt_asymm) fun a b c hab hbc => by lia
  exact ⟨hmem, fun part hpart => Nat.le_of_not_lt (hfirst part hpart)⟩

end Derivation

lemma list_foldlM_eq_some {α β : Type} {f : β → α → Option β} (g : β → α → β) {items : List α}
    {start : β} (h : ∀ a ∈ items, ∀ b, f b a = some (g b a)) :
    items.foldlM f start = some (items.foldl g start) := by
  induction items generalizing start with
  | nil => rfl
  | cons a items ih =>
    rw [List.foldlM_cons, h a List.mem_cons_self, List.foldl_cons]
    exact ih fun b hb => h b (List.mem_cons_of_mem _ hb)

namespace SearchState

variable {graph : Graph} {options : Options} {read : Array WordPart} {state : SearchState}
  {id : RouteId} (h : state.AllBuilt graph options read) (hid : id < state.arena.size)
include h hid

lemma AllBuilt.mem_signals_iff {s : Signal} : s ∈ (state.arena.route id).signals ↔
    ∃ part ∈ (state.tree id).wordParts, part.signal = s := by
  rw [← SignalSet.mem_toList, ← (h.covers hid).signals.mem_iff, List.mem_map]
  rfl

/-- The least signal of a route leads to the first word part of its derivation. -/
lemma AllBuilt.least_signal : ∃ least, (state.arena.route id).signals.toList.head? = some least ∧
    partAt? read least = some (state.tree id).leftmost := by
  obtain ⟨hmem, hle⟩ := (state.tree id).leftmost_spec
  refine ⟨_, SignalSet.head?_eq_some ((h.mem_signals_iff hid).2 ⟨_, hmem, rfl⟩) fun s hs => ?_,
    (h.standsIn_tree hid _ hmem).partAt?_eq⟩
  obtain ⟨part, hpart, rfl⟩ := (h.mem_signals_iff hid).1 hs
  exact hle part hpart

/-- The greatest signal of a route leads to the last word part of its derivation. -/
lemma AllBuilt.greatest_signal :
    ∃ greatest, (state.arena.route id).signals.toList.getLast? = some greatest ∧
      partAt? read greatest = some (state.tree id).rightmost := by
  obtain ⟨hmem, hle⟩ := (state.tree id).rightmost_spec
  refine ⟨_, SignalSet.getLast?_eq_some ((h.mem_signals_iff hid).2 ⟨_, hmem, rfl⟩) fun s hs => ?_,
    (h.standsIn_tree hid _ hmem).partAt?_eq⟩
  obtain ⟨part, hpart, rfl⟩ := (h.mem_signals_iff hid).1 hs
  exact hle part hpart

/-- Counted by numbers, the cost of a stored route is that of its derivation. -/
theorem AllBuilt.costWithin_eq {α : Type} (scale : CostScale α) {depth : Nat} (deep : id < depth) :
    state.arena.costWithin scale read depth id = some ((state.tree id).costOn scale) := by
  induction depth generalizing id with
  | zero => exact absurd deep (Nat.not_lt_zero id)
  | succ depth ih =>
    have component : ∀ other ∈ (state.arena.route id).components,
        state.arena.costWithin scale read depth other =
          some ((state.tree other).costOn scale) := fun other hother =>
      ih (h.component_lt_size hid hother)
        ((h.component_lt hid hother).trans_le (Nat.le_of_lt_succ deep))
    have remnant : (state.arena.route id).part.elim (some scale.zero)
        (state.arena.costWithin scale read depth) = some ((state.arena.route id).part.elim scale.zero
          fun other => (state.tree other).costOn scale) := by
      cases hpart : (state.arena.route id).part with
      | none => rfl
      | some other => exact component other (Route.mem_components.2 (Or.inl hpart))
    have root_eq : ∀ other < state.arena.size,
        (state.tree other).root = (state.arena.route other).root := fun other hother => by
      rw [h.tree_eq hother]
      rfl
    let attached (total : α) (other : RouteId) : α := scale.add total (scale.add
      ((state.tree other).attachmentCost scale (state.arena.route id).root)
      ((state.tree other).costOn scale))
    rw [Arena.costWithin, Arena.get?_eq_route hid]
    simp only [Option.bind_eq_bind, Option.bind_some, remnant]
    refine (list_foldlM_eq_some attached fun other hother total => ?_).trans ?_
    · have hcomponent : other ∈ (state.arena.route id).components := by
        rcases List.mem_append.1 hother with hother | hother
        · exact Route.mem_components.2 (Or.inr (Or.inl (Option.mem_toList.1 hother)))
        · exact Route.mem_components.2 (Or.inr (Or.inr hother))
      have hlt := h.component_lt_size hid hcomponent
      obtain ⟨least, hleast, hfirst⟩ := h.least_signal hlt
      obtain ⟨greatest, hgreatest, hlast⟩ := h.greatest_signal hlt
      simp only [Arena.get?_eq_route hlt, Option.bind_some, hleast, hgreatest, hfirst, hlast,
        component other hcomponent]
      rw [← root_eq other hlt]
      rfl
    · rw [h.tree_eq hid, Derivation.costOn_node, Derivation.addAdjunctCosts_eq_foldl, List.foldl_map,
        List.foldl_append]
      cases (state.arena.route id).part <;> cases (state.arena.route id).arg <;> rfl

end SearchState

end MergeGrammar
