import Mathlib.Data.Fintype.BigOperators
import MergeGrammar.Proofs.DerivationSoundness
import MergeGrammar.Proofs.RouteKeys

/-!
# Outlines of derivations

An outline is a derivation of which only the signals are kept. In one session the outline of a stored
derivation tells its route: two routes that differ in number differ somewhere in the signals of their
nodes. So there are no more routes than outlines over the signals that have been read, whatever the
limits are. A route can be unfolded by following the numbers of its components, and this never leads
deeper than the number of the route.
-/

namespace MergeGrammar

/-- The signals of a derivation in their places. -/
inductive Outline where
  | node (signal : Signal) (part arg : Option Outline) (adjuncts : List Outline)

namespace Derivation

mutual

def outline : Derivation → Outline
  | .node root part arg adjuncts =>
    let remnant := match part with
      | none => none
      | some d => some (outline d)
    let argument := match arg with
      | none => none
      | some d => some (outline d)
    .node root.signal remnant argument (outlineAll adjuncts)
termination_by structural d => d

def outlineAll : List Derivation → List Outline
  | [] => []
  | d :: ds => outline d :: outlineAll ds
termination_by structural ds => ds

end

lemma outline_node (root : WordPart) (part arg : Option Derivation) (adjuncts : List Derivation) :
    outline (.node root part arg adjuncts) =
      .node root.signal (part.map outline) (arg.map outline) (adjuncts.map outline) := by
  have all_eq : outlineAll adjuncts = adjuncts.map outline := by
    induction adjuncts with
    | nil => rfl
    | cons d ds ih => rw [outlineAll, ih, List.map_cons]
  cases part <;> cases arg <;> simp [outline, all_eq]

end Derivation

/-! ### Unfolding by number -/

namespace Arena

/-- The derivation of a route, got by following the numbers of its components. There is none if a
number is not in use or if numbers lead deeper than the first argument allows. -/
def unfoldWithin (arena : Arena) : Nat → RouteId → Option Derivation
  | 0, _ => none
  | depth + 1, id => do
    let route ← arena.get? id
    let part ← route.part.mapM (arena.unfoldWithin depth)
    let arg ← route.arg.mapM (arena.unfoldWithin depth)
    let adjuncts ← route.adjuncts.mapM (arena.unfoldWithin depth)
    return .node route.root part arg adjuncts

/-- A route is unfolded if its components are, one step less deep. -/
lemma unfoldWithin_succ {arena : Arena} {depth : Nat} {tree : RouteId → Derivation} {id : RouteId}
    (hid : id < arena.size) (component : ∀ other ∈ (arena.route id).components,
      arena.unfoldWithin depth other = some (tree other)) :
    arena.unfoldWithin (depth + 1) id = some (.node (arena.route id).root
      ((arena.route id).part.map tree) ((arena.route id).arg.map tree)
      ((arena.route id).adjuncts.map tree)) := by
  have slot : ∀ slot : Option RouteId, (∀ other, slot = some other →
      other ∈ (arena.route id).components) →
      slot.mapM (arena.unfoldWithin depth) = some (slot.map tree) :=
    fun _ hslot => slot_mapM_eq_some fun other hother => component other (hslot other hother)
  have part := slot (arena.route id).part fun _ h => Route.mem_components.2 (Or.inl h)
  have arg := slot (arena.route id).arg fun _ h => Route.mem_components.2 (Or.inr (Or.inl h))
  have adjuncts : (arena.route id).adjuncts.mapM (arena.unfoldWithin depth) =
      some ((arena.route id).adjuncts.map tree) :=
    list_mapM_eq_some fun other hother =>
      component other (Route.mem_components.2 (Or.inr (Or.inr hother)))
  rw [unfoldWithin, get?_eq_route hid]
  simp only [Option.bind_eq_bind, Option.bind_some, part, arg, adjuncts]
  rfl

end Arena

namespace SearchState

variable {graph : Graph} {options : Options} {read : Array WordPart} {state : SearchState}

/-- Following the numbers of the components ends at every stored route, and never deeper than the
number of the route. -/
theorem AllBuilt.unfoldWithin_eq (h : state.AllBuilt graph options read) {id : RouteId}
    (hid : id < state.arena.size) {depth : Nat} (deep : id < depth) :
    state.arena.unfoldWithin depth id = some (state.tree id) := by
  induction depth generalizing id with
  | zero => exact absurd deep (Nat.not_lt_zero id)
  | succ depth ih =>
    rw [h.tree_eq hid]
    refine Arena.unfoldWithin_succ hid fun other hother => ih (h.component_lt_size hid hother) ?_
    exact (h.component_lt hid hother).trans_le (Nat.le_of_lt_succ deep)

lemma AllBuilt.outline_tree (h : state.AllBuilt graph options read) {id : RouteId}
    (hid : id < state.arena.size) : (state.tree id).outline =
      .node (state.arena.route id).root.signal
        ((state.arena.route id).part.map fun other => (state.tree other).outline)
        ((state.arena.route id).arg.map fun other => (state.tree other).outline)
        ((state.arena.route id).adjuncts.map fun other => (state.tree other).outline) := by
  rw [h.tree_eq hid, Derivation.outline_node, Option.map_map, Option.map_map, List.map_map]
  rfl

/-- No outline is stored twice. -/
theorem AllBuilt.outline_injective (h : state.AllBuilt graph options read) (keyed : state.Keyed)
    {id other : RouteId} (hid : id < state.arena.size) (hother : other < state.arena.size)
    (heq : (state.tree id).outline = (state.tree other).outline) : id = other := by
  -- Equal outlines have equal outlines in all slots, so the components agree by induction and with
  -- them the keys.
  induction id using Nat.strong_induction_on generalizing other with
  | _ id ih =>
    have unique : ∀ i ∈ (state.arena.route id).components,
        ∀ j ∈ (state.arena.route other).components,
          (state.tree i).outline = (state.tree j).outline → i = j :=
      fun i hi j hj => ih i (h.component_lt hid hi) (h.component_lt_size hid hi)
        (h.component_lt_size hother hj)
    rw [h.outline_tree hid, h.outline_tree hother, Outline.node.injEq] at heq
    obtain ⟨hsignal, hpart, harg, hadjuncts⟩ := heq
    refine keyed.distinct id other hid hother (Route.key_eq_iff.2 ⟨hsignal, ?_, ?_, ?_⟩)
    · exact slot_eq_of_map_eq (fun i hi j hj => unique i (Route.mem_components.2 (Or.inl hi)) j
        (Route.mem_components.2 (Or.inl hj))) hpart
    · exact slot_eq_of_map_eq (fun i hi j hj => unique i
        (Route.mem_components.2 (Or.inr (Or.inl hi))) j
        (Route.mem_components.2 (Or.inr (Or.inl hj)))) harg
    · exact list_eq_of_map_eq (fun i hi j hj => unique i
        (Route.mem_components.2 (Or.inr (Or.inr hi))) j
        (Route.mem_components.2 (Or.inr (Or.inr hj)))) hadjuncts

end SearchState

namespace Session

variable {session : Session}

/-- Every component of a stored route comes before the route, and following the components from there
ends with its derivation. Two stored routes have derivations with the same signals in the same places
only if they are one. -/
theorem unfolding_injective (reachable : Reachable session) :
    (∀ id, id < session.search.arena.size →
      ∀ other ∈ (session.search.arena.route id).components, other < id) ∧
    (∀ id, id < session.search.arena.size → ∀ depth, id < depth →
      ∃ d, session.search.arena.unfoldWithin depth id = some d ∧
        session.derivations[id]? = some d) ∧
    ∀ (id other : RouteId) (d e : Derivation), session.derivations[id]? = some d →
      session.derivations[other]? = some e → (d.outline = e.outline ↔ id = other) := by
  have stage := reachable.stage
  have built := stage.allBuilt.1
  refine ⟨fun id hid other hother => built.component_lt hid hother, fun id hid depth deep => ?_,
    fun id other d e hd he => ?_⟩
  · exact ⟨_, built.unfoldWithin_eq hid deep, built.getElem?_derivations hid⟩
  · obtain ⟨hid, rfl⟩ := stage.getElem?_iff.1 hd
    obtain ⟨hother, rfl⟩ := stage.getElem?_iff.1 he
    constructor
    · exact built.outline_injective stage.keyed hid hother
    · rintro rfl
      rfl

/-- The last two routes of the sample are the head with its adjunct and with its noun besides. Their
outlines differ, and the last one is unfolded in no more than six steps. -/
theorem sample_outlines_differ :
    ∃ d e, (sample.stepped 3).derivations[4]? = some d ∧
      (sample.stepped 3).derivations[5]? = some e ∧ d.outline ≠ e.outline ∧
      (sample.stepped 3).search.arena.unfoldWithin 6 5 = some e := by
  obtain ⟨-, unfolds, injective⟩ := unfolding_injective (sample_reachable 3)
  have hsize : (sample.stepped 3).search.arena.size = 6 := by decide +kernel
  obtain ⟨d, -, hd⟩ := unfolds 4 (by rw [hsize]; decide) 5 (by decide)
  obtain ⟨e, hunfold, he⟩ := unfolds 5 (by rw [hsize]; decide) 6 (by decide)
  refine ⟨d, e, hd, he, fun heq => ?_, hunfold⟩
  exact absurd ((injective 4 5 d e hd he).1 heq) (by decide)

end Session

/-! ### The number of outlines -/

/-- Two lists that agree up to a length that neither exceeds are the same when they are filled up. -/
lemma eq_of_getD_eq {xs ys : List Nat} {n : Nat} (hxs : xs.length ≤ n) (hys : ys.length ≤ n)
    (h : ∀ i < n, xs.getD i 0 = ys.getD i 0) :
    xs ++ List.replicate (n - xs.length) 0 = ys ++ List.replicate (n - ys.length) 0 := by
  have filled : ∀ zs : List Nat, zs.length ≤ n → ∀ i < n,
      (zs ++ List.replicate (n - zs.length) 0)[i]? = some (zs.getD i 0) := by
    intro zs hzs i hi
    rw [List.getElem?_append, List.getD_eq_getElem?_getD]
    split
    · next hlt => rw [List.getElem?_eq_getElem hlt, Option.getD_some]
    · next hge =>
      rw [List.getElem?_eq_none (Nat.le_of_not_lt hge), List.getElem?_replicate, if_pos (by omega)]
      rfl
  refine List.ext_getElem? fun i => ?_
  by_cases hi : i < n
  · rw [filled xs hxs i hi, filled ys hys i hi, h i hi]
  · rw [List.getElem?_eq_none (by simp; omega), List.getElem?_eq_none (by simp; omega)]

namespace Derivation

mutual

/-- A derivation as a list of numbers: the signal of a node comes before its slots, and a zero stands
for an empty slot and behind the adjuncts. -/
def code : Derivation → List Nat
  | .node root part arg adjuncts =>
    let remnant := match part with
      | none => [0]
      | some d => code d
    let argument := match arg with
      | none => [0]
      | some d => code d
    root.signal :: (remnant ++ (argument ++ codeAll adjuncts))
termination_by structural d => d

def codeAll : List Derivation → List Nat
  | [] => [0]
  | d :: ds => code d ++ codeAll ds
termination_by structural ds => ds

end

def codeSlot (slot : Option Derivation) : List Nat := slot.elim [0] code

lemma code_node (root : WordPart) (part arg : Option Derivation) (adjuncts : List Derivation) :
    code (.node root part arg adjuncts) =
      root.signal :: (codeSlot part ++ (codeSlot arg ++ codeAll adjuncts)) := by
  cases part <;> cases arg <;> simp [code, codeSlot]

lemma exists_code_eq (d : Derivation) : ∃ rest, d.code = d.root.signal :: rest := by
  obtain ⟨root, part, arg, adjuncts⟩ := d
  exact ⟨_, code_node root part arg adjuncts⟩

variable {read : Array WordPart}

/-- A zero stands for no derivation, as signals are counted from one. -/
lemma StandsIn.zero_ne_code {d : Derivation} (hd : d.StandsIn read) {xs ys : List Nat} :
    0 :: xs ≠ d.code ++ ys := by
  obtain ⟨rest, heq⟩ := d.exists_code_eq
  rw [heq, List.cons_append]
  intro h
  exact hd.root.1.ne (List.cons.inj h).1

/-- What is read off the code of a derivation, whatever follows it. -/
def Decodes (read : Array WordPart) (d : Derivation) : Prop :=
  d.StandsIn read → ∀ e : Derivation, e.StandsIn read → ∀ xs ys : List Nat,
    d.code ++ xs = e.code ++ ys → d.outline = e.outline ∧ xs = ys

lemma codeSlot_append_inj {slot other : Option Derivation}
    (decodes : ∀ d, slot = some d → d.Decodes read)
    (stands : ∀ d, slot = some d → d.StandsIn read)
    (stands' : ∀ d, other = some d → d.StandsIn read) {xs ys : List Nat}
    (heq : codeSlot slot ++ xs = codeSlot other ++ ys) :
    slot.map outline = other.map outline ∧ xs = ys := by
  cases slot with
  | none =>
    cases other with
    | none => exact ⟨rfl, (List.cons.inj heq).2⟩
    | some e => exact absurd heq (stands' e rfl).zero_ne_code
  | some d =>
    cases other with
    | none => exact absurd heq.symm (stands d rfl).zero_ne_code
    | some e =>
      obtain ⟨outline_eq, rest_eq⟩ := decodes d rfl (stands d rfl) e (stands' e rfl) xs ys heq
      exact ⟨congrArg some outline_eq, rest_eq⟩

lemma codeAll_append_inj {ds es : List Derivation} (decodes : ∀ d ∈ ds, d.Decodes read)
    (stands : ∀ d ∈ ds, d.StandsIn read) (stands' : ∀ e ∈ es, e.StandsIn read) {xs ys : List Nat}
    (heq : codeAll ds ++ xs = codeAll es ++ ys) : ds.map outline = es.map outline ∧ xs = ys := by
  induction ds generalizing es with
  | nil =>
    cases es with
    | nil => exact ⟨rfl, (List.cons.inj heq).2⟩
    | cons e es =>
      rw [codeAll, codeAll, List.append_assoc] at heq
      exact absurd heq (stands' e List.mem_cons_self).zero_ne_code
  | cons d ds ih =>
    cases es with
    | nil =>
      rw [codeAll, codeAll, List.append_assoc] at heq
      exact absurd heq.symm (stands d List.mem_cons_self).zero_ne_code
    | cons e es =>
      rw [codeAll, codeAll, List.append_assoc, List.append_assoc] at heq
      obtain ⟨first_eq, heq⟩ := decodes d List.mem_cons_self (stands d List.mem_cons_self) e
        (stands' e List.mem_cons_self) _ _ heq
      obtain ⟨all_eq, rest_eq⟩ := ih (fun d hd => decodes d (List.mem_cons_of_mem _ hd))
        (fun d hd => stands d (List.mem_cons_of_mem _ hd))
        (fun e he => stands' e (List.mem_cons_of_mem _ he)) heq
      rw [List.map_cons, List.map_cons, first_eq, all_eq]
      exact ⟨rfl, rest_eq⟩

/-- The code of a derivation tells its outline and where it ends. -/
theorem code_append_inj (d : Derivation) : d.Decodes read := by
  induction d using Derivation.induct with
  | node root part arg adjuncts hpart harg hadjuncts =>
    intro hd e he xs ys heq
    obtain ⟨root', part', arg', adjuncts'⟩ := e
    rw [code_node, code_node, List.cons_append, List.cons_append, List.cons.injEq] at heq
    obtain ⟨signal_eq, heq⟩ := heq
    simp only [List.append_assoc] at heq
    obtain ⟨part_eq, heq⟩ := codeSlot_append_inj hpart (fun d h => hd.component (Or.inl h))
      (fun d h => he.component (Or.inl h)) heq
    obtain ⟨arg_eq, heq⟩ := codeSlot_append_inj harg (fun d h => hd.component (Or.inr (Or.inl h)))
      (fun d h => he.component (Or.inr (Or.inl h))) heq
    obtain ⟨adjuncts_eq, rest_eq⟩ := codeAll_append_inj hadjuncts
      (fun d h => hd.component (Or.inr (Or.inr h))) (fun d h => he.component (Or.inr (Or.inr h))) heq
    rw [outline_node, outline_node, signal_eq, part_eq, arg_eq, adjuncts_eq]
    exact ⟨rfl, rest_eq⟩

/-- A node takes up its signal and three zeros at most. -/
lemma length_code_le (d : Derivation) : d.code.length ≤ 4 * d.wordParts.length := by
  induction d using Derivation.induct with
  | node root part arg adjuncts hpart harg hadjuncts =>
    have slot_le : ∀ slot : Option Derivation,
        (∀ d, slot = some d → d.code.length ≤ 4 * d.wordParts.length) →
        (codeSlot slot).length ≤ 4 * (slotParts slot).length + 1 := by
      intro slot h
      cases slot with
      | none => exact le_rfl
      | some d => exact (h d rfl).trans (Nat.le_succ _)
    have all_le : ∀ ds : List Derivation, (∀ d ∈ ds, d.code.length ≤ 4 * d.wordParts.length) →
        (codeAll ds).length ≤ 4 * (wordPartsOfAll ds).length + 1 := by
      intro ds h
      induction ds with
      | nil => exact le_rfl
      | cons d ds ih =>
        have first := h d List.mem_cons_self
        have rest := ih fun d hd => h d (List.mem_cons_of_mem _ hd)
        rw [codeAll, wordPartsOfAll, List.length_append, List.length_append]
        omega
    have part_le := slot_le part hpart
    have arg_le := slot_le arg harg
    have adjuncts_le := all_le adjuncts hadjuncts
    simp only [code_node, wordParts_node, List.length_cons, List.length_append]
    omega

lemma StandsIn.le_of_mem_code {d : Derivation} (hd : d.StandsIn read) {x : Nat} (hx : x ∈ d.code) :
    x ≤ read.size := by
  induction d using Derivation.induct with
  | node root part arg adjuncts hpart harg hadjuncts =>
    have slot_le : ∀ slot : Option Derivation,
        (∀ d, slot = some d → x ∈ d.code → x ≤ read.size) → x ∈ codeSlot slot → x ≤ read.size := by
      intro slot h hmem
      cases slot with
      | none =>
        rw [List.mem_singleton.1 hmem]
        exact Nat.zero_le _
      | some d => exact h d rfl hmem
    have all_le : ∀ ds : List Derivation, (∀ d ∈ ds, x ∈ d.code → x ≤ read.size) →
        x ∈ codeAll ds → x ≤ read.size := by
      intro ds h hmem
      induction ds with
      | nil =>
        rw [List.mem_singleton.1 hmem]
        exact Nat.zero_le _
      | cons d ds ih =>
        rcases List.mem_append.1 hmem with hmem | hmem
        · exact h d List.mem_cons_self hmem
        · exact ih (fun d hd => h d (List.mem_cons_of_mem _ hd)) hmem
    rw [code_node] at hx
    rcases List.mem_cons.1 hx with rfl | hx
    · exact hd.root.le_size
    · rcases List.mem_append.1 hx with hx | hx
      · exact slot_le part (fun d h => hpart d h (hd.component (Or.inl h))) hx
      · rcases List.mem_append.1 hx with hx | hx
        · exact slot_le arg (fun d h => harg d h (hd.component (Or.inr (Or.inl h)))) hx
        · exact all_le adjuncts
            (fun d h => hadjuncts d h (hd.component (Or.inr (Or.inr h)))) hx

end Derivation

namespace SearchState

variable {graph : Graph} {options : Options} {read : Array WordPart} {state : SearchState}

lemma AllBuilt.size_le_size (h : state.AllBuilt graph options read) {id : RouteId}
    (hid : id < state.arena.size) : (state.arena.route id).size ≤ read.size := by
  have hsub : (state.arena.route id).signals.toList ⊆ List.range' 1 read.size := by
    intro s hs
    obtain ⟨hpos, hle⟩ := h.signals_range hid hs
    exact List.mem_range'_1.2 ⟨hpos, Nat.lt_one_add_iff.2 hle⟩
  have hle := List.Nodup.length_le_of_subset (SignalSet.nodup_toList _) hsub
  rwa [List.length_range'] at hle

lemma AllBuilt.getD_code_le (h : state.AllBuilt graph options read) {id : RouteId}
    (hid : id < state.arena.size) (i : Nat) : (state.tree id).code.getD i 0 ≤ read.size := by
  rw [List.getD_eq_getElem?_getD]
  cases hx : (state.tree id).code[i]? with
  | none => exact Nat.zero_le _
  | some x => exact (h.standsIn_tree hid).le_of_mem_code (List.mem_of_getElem? hx)

lemma AllBuilt.length_code_tree (h : state.AllBuilt graph options read) {id : RouteId}
    (hid : id < state.arena.size) : (state.tree id).code.length ≤ 4 * read.size := by
  have hlength := (h.covers hid).signals.length_eq
  rw [List.length_map] at hlength
  have hcode := (state.tree id).length_code_le
  have hsize := h.size_le_size hid
  rw [Route.size, SignalSet.size, ← hlength] at hsize
  exact hcode.trans (Nat.mul_le_mul_left 4 hsize)

/-- Without any limit there are no more routes than lists of signals and zeros that are long enough
to write an outline down. -/
theorem AllBuilt.arena_size_le (h : state.AllBuilt graph options read) (keyed : state.Keyed) :
    state.arena.size ≤ (read.size + 1) ^ (4 * read.size) := by
  let written (id : RouteId) : Fin (4 * read.size) → Fin (read.size + 1) :=
    fun i => Fin.ofNat _ ((state.tree id).code.getD i 0)
  have injective : ∀ id, id < state.arena.size → ∀ other, other < state.arena.size →
      written id = written other → id = other := by
    intro id hid other hother heq
    have getD_eq : ∀ i < 4 * read.size,
        (state.tree id).code.getD i 0 = (state.tree other).code.getD i 0 := by
      intro i hi
      have hval := congrArg Fin.val (congrFun heq ⟨i, hi⟩)
      simp only [written, Fin.val_ofNat] at hval
      rwa [Nat.mod_eq_of_lt (Nat.lt_succ_of_le (h.getD_code_le hid i)),
        Nat.mod_eq_of_lt (Nat.lt_succ_of_le (h.getD_code_le hother i))] at hval
    -- Filled up with zeros both codes are the same list, and a code tells where it ends.
    have filled_eq := eq_of_getD_eq (h.length_code_tree hid) (h.length_code_tree hother) getD_eq
    exact h.outline_injective keyed hid hother
      ((state.tree id).code_append_inj (h.standsIn_tree hid) _ (h.standsIn_tree hother) _ _
        filled_eq).1
  have card_le : (Finset.range state.arena.size).card ≤
      (Finset.univ : Finset (Fin (4 * read.size) → Fin (read.size + 1))).card :=
    Finset.card_le_card_of_injOn written (fun _ _ => Finset.mem_univ _)
    fun id hid other hother => injective id (Finset.mem_range.1 hid) other (Finset.mem_range.1 hother)
  rwa [Finset.card_range, Finset.card_univ, Fintype.card_fun, Fintype.card_fin,
    Fintype.card_fin] at card_le

end SearchState

end MergeGrammar
