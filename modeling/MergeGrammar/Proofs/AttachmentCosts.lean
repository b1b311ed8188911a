import Mathlib.Algebra.Order.BigOperators.Group.List
import Mathlib.Algebra.Order.Ring.Rat
import Mathlib.Tactic.Linarith
import MergeGrammar.Proofs.NumberedCosts

/-!
# Costs of attachments

The exact cost of a derivation is the sum of what its attachments cost, wherever in the derivation
they are, and remnants add nothing of their own. While a sentence is read, the numbers of its words
grow no faster than its signals. So an attachment costs nothing if its two ends are adjacent, and
otherwise its cost grows with the number of signals between them.
-/

namespace MergeGrammar

/-! ### Words and signals -/

/-- Each word part belongs to the word of the part before it or to the next word. -/
def Gradual (read : Array WordPart) : Prop :=
  ∀ (i : Nat) (part next : WordPart), read[i]? = some part → read[i + 1]? = some next →
    next.wordIndex = part.wordIndex ∨ next.wordIndex = part.wordIndex + 1

namespace Gradual

variable {read : Array WordPart}

lemma empty : Gradual #[] := fun i part next hpart _ => by simp at hpart

lemma push (h : Gradual read) {next : WordPart}
    (hnext : ∀ last, read.back? = some last →
      next.wordIndex = last.wordIndex ∨ next.wordIndex = last.wordIndex + 1) :
    Gradual (read.push next) := by
  intro i part after hpart hafter
  rw [Array.getElem?_push] at hpart hafter
  by_cases hi : i = read.size
  · rw [if_neg (by omega), Array.getElem?_eq_none (by omega)] at hafter
    cases hafter
  · rw [if_neg hi] at hpart
    split at hafter
    · next hlast =>
      cases hafter
      refine hnext part ?_
      rw [Array.back?_eq_getElem?, ← hlast]
      exact hpart
    · exact h i part after hpart hafter

/-- Word parts that lie some places apart belong to words that lie no more than as many apart. -/
lemma wordIndex_le (h : Gradual read) {i k : Nat} {part later : WordPart}
    (hpart : read[i]? = some part) (hlater : read[i + k]? = some later) :
    part.wordIndex ≤ later.wordIndex ∧ later.wordIndex ≤ part.wordIndex + k := by
  induction k generalizing later with
  | zero =>
    rw [Nat.add_zero, hpart] at hlater
    cases hlater
    exact ⟨Nat.le_refl _, Nat.le_refl _⟩
  | succ k ih =>
    obtain ⟨hlt, -⟩ := Array.getElem?_eq_some_iff.1 hlater
    have hbefore : read[i + k]? = some read[i + k] := Array.getElem?_eq_getElem (by omega)
    have bounds := ih hbefore
    have hstep := h (i + k) _ later hbefore hlater
    omega

/-- Two word parts are no further apart in words than in signals. -/
lemma distance_le (h : Gradual read) {a b : WordPart} (ha : a.StandsIn read)
    (hb : b.StandsIn read) :
    CostScale.exact.distance a.wordIndex b.wordIndex ≤
      CostScale.exact.distance a.signal b.signal := by
  have key : ∀ c d : WordPart, c.StandsIn read → d.StandsIn read → c.signal ≤ d.signal →
      c.wordIndex ≤ d.wordIndex ∧ d.wordIndex ≤ c.wordIndex + (d.signal - c.signal) := by
    intro c d hc hd hle
    refine h.wordIndex_le hc.2 ?_
    have hpos := hc.1
    have place_eq : c.signal - 1 + (d.signal - c.signal) = d.signal - 1 := by lia
    rw [place_eq]
    exact hd.2
  simp only [CostScale.distance, CostScale.exact]
  rcases Nat.le_total a.signal b.signal with hle | hle
  · have bounds := key a b ha hb hle
    omega
  · have bounds := key b a hb ha hle
    omega

end Gradual

lemma Reading.next_wordIndex {graph : Graph} {reading : Reading} {part : WordPart}
    (hread : (reading.next graph).1 = some part) {last : WordPart}
    (hlast : reading.wordParts.back? = some last) :
    part.wordIndex = last.wordIndex ∨ part.wordIndex = last.wordIndex + 1 := by
  rw [next] at hread
  split at hread
  · cases hread
  · next current hcurrent =>
    rw [back?_of_current? hcurrent] at hlast
    cases hlast
    split at hread
    · cases hread
      exact Or.inl rfl
    · split at hread
      · cases hread
        exact Or.inr rfl
      · cases hread

namespace Session

variable {session : Session}

lemma read_wordIndex {part : WordPart} (hread : session.read.1 = some part) (last : WordPart)
    (hlast : session.reading.wordParts.back? = some last) :
    part.wordIndex = last.wordIndex ∨ part.wordIndex = last.wordIndex + 1 := by
  rw [read] at hread
  split at hread
  · next hempty =>
    rw [Array.isEmpty_iff.1 hempty] at hlast
    cases hlast
  · exact Reading.next_wordIndex hread hlast

/-- At every stage the words go on one at a time. -/
theorem Stage.gradual (h : Stage session) : Gradual session.reading.wordParts := by
  induction h with
  | start started =>
    obtain ⟨entries, -, rfl⟩ := start_eq_ok started
    exact Gradual.empty
  | reset => exact Gradual.empty
  | exhaust stage hread ih =>
    obtain ⟨hparts, -⟩ := read_none stage.coherent.ordered hread
    exact hparts ▸ ih
  | @enter session part stage hread ih =>
    obtain ⟨hparts, -, -⟩ := read_some stage.coherent.ordered hread
    change Gradual session.read.2.wordParts
    rw [hparts]
    exact ih.push (read_wordIndex hread)
  | move _ _ ih => exact ih
  | record _ _ ih => exact ih

end Session

/-! ### The cost of one attachment -/

/-- An attachment over a distance in signals that is no shorter in words costs at least a tenth for
each signal between its ends, and at most one more for each of them. -/
lemma relationCost_bounds {head root : WordPart} (first last : WordPart)
    (shorter : CostScale.exact.distance head.wordIndex root.wordIndex ≤
      CostScale.exact.distance head.signal root.signal)
    (apart : 1 ≤ CostScale.exact.distance head.signal root.signal) :
    ((CostScale.exact.distance head.signal root.signal : Rat) - 1) / 10 ≤
        relationCost .exact head root first last ∧
      relationCost .exact head root first last ≤
        11 * ((CostScale.exact.distance head.signal root.signal : Rat) - 1) / 10 := by
  have cost_eq : relationCost .exact head root first last =
      ((min (min (CostScale.exact.distance head.wordIndex root.wordIndex)
        (CostScale.exact.distance head.wordIndex first.wordIndex))
        (CostScale.exact.distance head.wordIndex last.wordIndex) - 1 : Nat) : Rat) +
      ((CostScale.exact.distance head.signal root.signal - 1 : Nat) : Rat) / 10 := rfl
  rw [cost_eq]
  -- The nearest of the three word parts is no further than the root.
  have reach_le : min (min (CostScale.exact.distance head.wordIndex root.wordIndex)
      (CostScale.exact.distance head.wordIndex first.wordIndex))
      (CostScale.exact.distance head.wordIndex last.wordIndex) - 1 ≤
        CostScale.exact.distance head.signal root.signal - 1 := by omega
  generalize min (min _ _) _ - 1 = reach at reach_le ⊢
  obtain ⟨between, hbetween⟩ := Nat.exists_eq_add_of_le' apart
  rw [hbetween, Nat.add_sub_cancel] at reach_le ⊢
  have cast_le : (reach : Rat) ≤ between := Nat.cast_le.2 reach_le
  have cast_nonneg : (0 : Rat) ≤ reach := Nat.cast_nonneg reach
  rw [Nat.cast_add, Nat.cast_one, add_sub_cancel_right]
  constructor
  · linarith
  · linarith

/-- A derivation as the argument or an adjunct of the word part it is attached to. -/
structure Attachment where
  head : WordPart
  sub : Derivation

namespace Attachment

/-- The number of signals from the head to the root of what is attached. -/
def distance (attachment : Attachment) : Nat :=
  CostScale.exact.distance attachment.head.signal attachment.sub.root.signal

def cost (attachment : Attachment) : Rat := attachment.sub.attachmentCost .exact attachment.head

/-- The two ends are different word parts that have been read. -/
structure Standing (read : Array WordPart) (attachment : Attachment) : Prop where
  head : attachment.head.StandsIn read
  root : attachment.sub.root.StandsIn read
  ne : attachment.head.signal ≠ attachment.sub.root.signal

namespace Standing

variable {read : Array WordPart} {attachment : Attachment} (h : attachment.Standing read)
include h

lemma distance_pos : 1 ≤ attachment.distance := by
  have hne := h.ne
  simp only [distance, CostScale.distance, CostScale.exact]
  lia

lemma cost_bounds (gradual : Gradual read) :
    ((attachment.distance : Rat) - 1) / 10 ≤ attachment.cost ∧
      attachment.cost ≤ 11 * ((attachment.distance : Rat) - 1) / 10 :=
  relationCost_bounds _ _ (gradual.distance_le h.head h.root) h.distance_pos

lemma cost_nonneg (gradual : Gradual read) : 0 ≤ attachment.cost := by
  have cast_pos : (1 : Rat) ≤ attachment.distance := by exact_mod_cast h.distance_pos
  have bound := (h.cost_bounds gradual).1
  linarith

lemma cost_eq_zero_iff (gradual : Gradual read) :
    attachment.cost = 0 ↔ attachment.distance = 1 := by
  obtain ⟨lower, upper⟩ := h.cost_bounds gradual
  have cast_pos : (1 : Rat) ≤ attachment.distance := by exact_mod_cast h.distance_pos
  constructor
  · intro hzero
    have cast_le : (attachment.distance : Rat) ≤ 1 := by linarith
    exact le_antisymm (by exact_mod_cast cast_le) h.distance_pos
  · intro hone
    rw [hone, Nat.cast_one] at lower upper
    linarith

end Standing

end Attachment

/-! ### The attachments of a derivation -/

namespace Derivation

mutual

/-- The arguments and the adjuncts at all nodes of a derivation, those inside its remnants
included. -/
def attachments : Derivation → List Attachment
  | .node root part arg adjuncts =>
    let remnant := match part with
      | none => []
      | some d => attachments d
    let argument := match arg with
      | none => []
      | some d => ⟨root, d⟩ :: attachments d
    remnant ++ argument ++ attachmentsOfAll root adjuncts
termination_by structural d => d

def attachmentsOfAll (host : WordPart) : List Derivation → List Attachment
  | [] => []
  | d :: ds => ⟨host, d⟩ :: attachments d ++ attachmentsOfAll host ds
termination_by structural ds => ds

end

lemma attachments_node (root : WordPart) (part arg : Option Derivation)
    (adjuncts : List Derivation) : attachments (.node root part arg adjuncts) =
      part.elim [] attachments ++
        (arg.toList ++ adjuncts).flatMap fun d => ⟨root, d⟩ :: d.attachments := by
  have all_eq : attachmentsOfAll root adjuncts =
      adjuncts.flatMap fun d => ⟨root, d⟩ :: d.attachments := by
    induction adjuncts with
    | nil => rfl
    | cons d ds ih => rw [attachmentsOfAll, ih, List.flatMap_cons]
  rw [List.flatMap_append, ← all_eq, ← List.append_assoc]
  cases part <;> cases arg <;> simp [attachments]

/-- An attachment is made at the root or inside a component. -/
lemma mem_attachments_node {root : WordPart} {part arg : Option Derivation}
    {adjuncts : List Derivation} {attachment : Attachment} :
    attachment ∈ attachments (.node root part arg adjuncts) ↔
      (∃ d, (arg = some d ∨ d ∈ adjuncts) ∧ attachment = ⟨root, d⟩) ∨
      ∃ d, (part = some d ∨ arg = some d ∨ d ∈ adjuncts) ∧ attachment ∈ d.attachments := by
  have remnant : attachment ∈ part.elim [] attachments ↔
      ∃ d, part = some d ∧ attachment ∈ d.attachments := by
    cases part <;> simp
  rw [attachments_node, List.mem_append, remnant, List.mem_flatMap]
  simp only [List.mem_append, Option.mem_toList, List.mem_cons]
  grind

/-- The components of a derivation in which every signal stands once are of that kind, and the
signal of the root stands in none of them. -/
lemma nodup_component {root : WordPart} {part arg : Option Derivation} {adjuncts : List Derivation}
    (nodup : ((node root part arg adjuncts).wordParts.map WordPart.signal).Nodup) {d : Derivation}
    (hd : part = some d ∨ arg = some d ∨ d ∈ adjuncts) :
    (d.wordParts.map WordPart.signal).Nodup ∧
      root.signal ∉ d.wordParts.map WordPart.signal := by
  have sublist : d.wordParts.Sublist
      (slotParts part ++ slotParts arg ++ wordPartsOfAll adjuncts) := by
    rcases hd with rfl | rfl | hd
    · exact (List.sublist_append_left _ _).trans (List.sublist_append_left _ _)
    · exact (List.sublist_append_right _ _).trans (List.sublist_append_left _ _)
    · rw [wordPartsOfAll_eq, List.flatMap_def]
      exact (List.sublist_flatten_of_mem (List.mem_map_of_mem hd)).trans
        (List.sublist_append_right _ _)
  rw [wordParts_node, List.map_cons, List.nodup_cons] at nodup
  exact ⟨nodup.2.sublist (sublist.map _), fun hroot => nodup.1 ((sublist.map _).subset hroot)⟩

/-- If every signal stands once, every attachment has two different ends. -/
lemma standing_attachments {read : Array WordPart} {d : Derivation} (stands : d.StandsIn read)
    (nodup : (d.wordParts.map WordPart.signal).Nodup) :
    ∀ attachment ∈ d.attachments, attachment.Standing read := by
  induction d using Derivation.induct with
  | node root part arg adjuncts hpart harg hadjuncts =>
    intro attachment hmem
    rcases mem_attachments_node.1 hmem with ⟨d, hd, rfl⟩ | ⟨d, hd, hmem⟩
    · have fresh := (nodup_component nodup (Or.inr hd)).2
      refine ⟨stands.root, (stands.component (Or.inr hd)).root, fun heq => fresh ?_⟩
      rw [heq]
      exact List.mem_map_of_mem d.root_mem_wordParts
    · have component := stands.component hd
      have once := (nodup_component nodup hd).1
      rcases hd with hd | hd | hd
      · exact hpart d hd component once attachment hmem
      · exact harg d hd component once attachment hmem
      · exact hadjuncts d hd component once attachment hmem

/-! ### The cost of a derivation -/

/-- The costs inside the remnant, and each further component with its attachment. -/
lemma costOn_exact_node (root : WordPart) (part arg : Option Derivation)
    (adjuncts : List Derivation) : costOn .exact (.node root part arg adjuncts) =
      part.elim 0 (costOn .exact) + ((arg.toList ++ adjuncts).map fun d =>
        d.attachmentCost .exact root + d.costOn .exact).sum := by
  have adjuncts_eq : ∀ cost : Rat, addAdjunctCosts .exact root cost adjuncts =
      cost + (adjuncts.map fun d => d.attachmentCost .exact root + d.costOn .exact).sum := by
    intro cost
    induction adjuncts generalizing cost with
    | nil => exact (add_zero cost).symm
    | cons d ds ih =>
      rw [addAdjunctCosts, ih, List.map_cons, List.sum_cons, ← add_assoc]
      rfl
  rw [costOn_node, adjuncts_eq, List.map_append, List.sum_append, ← add_assoc]
  cases arg with
  | none =>
    rw [Option.toList_none, List.map_nil, List.sum_nil, add_zero]
    rfl
  | some d =>
    rw [Option.toList_some, List.map_singleton, List.sum_singleton]
    rfl

/-- The exact cost of a derivation is the sum of the costs of its attachments. -/
lemma costOn_exact_eq_sum (d : Derivation) :
    d.costOn .exact = (d.attachments.map Attachment.cost).sum := by
  induction d using Derivation.induct with
  | node root part arg adjuncts hpart harg hadjuncts =>
    have remnant : part.elim 0 (costOn .exact) =
        ((part.elim [] attachments).map Attachment.cost).sum := by
      cases part with
      | none => rfl
      | some d => exact hpart d rfl
    have attached : ∀ d ∈ arg.toList ++ adjuncts, d.attachmentCost .exact root + d.costOn .exact =
        (((⟨root, d⟩ : Attachment) :: d.attachments).map Attachment.cost).sum := by
      intro d hd
      have inside : d.costOn .exact = (d.attachments.map Attachment.cost).sum := by
        rcases List.mem_append.1 hd with hd | hd
        · exact harg d (Option.mem_toList.1 hd)
        · exact hadjuncts d hd
      rw [List.map_cons, List.sum_cons, ← inside]
      rfl
    rw [attachments_node, List.map_append, List.sum_append, List.map_flatMap, List.flatMap_def,
      List.sum_flatten, List.map_map, costOn_exact_node, remnant, List.map_congr_left attached]
    rfl

section Standing

variable {read : Array WordPart} {d : Derivation} (gradual : Gradual read)
  (standing : ∀ attachment ∈ d.attachments, attachment.Standing read)
include gradual standing

lemma costs_nonneg : ∀ cost ∈ d.attachments.map Attachment.cost, 0 ≤ cost := by
  intro cost hcost
  obtain ⟨attachment, hmem, rfl⟩ := List.mem_map.1 hcost
  exact (standing attachment hmem).cost_nonneg gradual

lemma costOn_exact_nonneg : 0 ≤ d.costOn .exact := by
  rw [costOn_exact_eq_sum]
  exact List.sum_nonneg (costs_nonneg gradual standing)

/-- A derivation costs nothing exactly if all its attachments join adjacent signals. -/
lemma costOn_exact_eq_zero_iff :
    d.costOn .exact = 0 ↔ ∀ attachment ∈ d.attachments, attachment.distance = 1 := by
  have free : (d.attachments.map Attachment.cost).sum = 0 ↔
      ∀ attachment ∈ d.attachments, attachment.cost = 0 := by
    constructor
    · intro hsum attachment hmem
      exact List.all_zero_of_le_zero_le_of_sum_eq_zero (costs_nonneg gradual standing) hsum
        (List.mem_map_of_mem hmem)
    · exact fun hzero => List.sum_eq_zero (List.forall_mem_map.2 hzero)
  rw [costOn_exact_eq_sum, free]
  exact forall₂_congr fun attachment hmem => (standing attachment hmem).cost_eq_zero_iff gradual

end Standing

end Derivation

namespace Session

variable {session : Session}

/-- Every stored route has an exact cost, which is the sum of the costs of all attachments in its
derivation. It is never negative, and it is zero exactly if all attachments join adjacent signals.
Over a distance of `d` signals an attachment costs between `(d - 1) / 10` and `11 (d - 1) / 10`. A
remnant adds the cost that it has by itself. -/
theorem cost_by_distance (reachable : Reachable session) {id : RouteId}
    (hid : id < session.search.arena.size) :
    ∃ d, session.derivations[id]? = some d ∧
      session.search.arena.costWithin .exact session.reading.wordParts session.search.arena.size
        id = some (d.costOn .exact) ∧
      d.costOn .exact = (d.attachments.map Attachment.cost).sum ∧
      0 ≤ d.costOn .exact ∧
      (d.costOn .exact = 0 ↔ ∀ attachment ∈ d.attachments, attachment.distance = 1) ∧
      (∀ attachment ∈ d.attachments, 1 ≤ attachment.distance ∧
        ((attachment.distance : Rat) - 1) / 10 ≤ attachment.cost ∧
        attachment.cost ≤ 11 * ((attachment.distance : Rat) - 1) / 10) ∧
      ∀ root remnant arg adjuncts, d = .node root (some remnant) arg adjuncts →
        d.costOn .exact =
          remnant.costOn .exact + (Derivation.node root none arg adjuncts).costOn .exact := by
  have stage := reachable.stage
  have built := stage.allBuilt.1
  have gradual := stage.gradual
  have nodup := (built.covers hid).signals.nodup_iff.2 (SignalSet.nodup_toList _)
  have standing := Derivation.standing_attachments (built.standsIn_tree hid) nodup
  refine ⟨session.search.tree id, stage.getElem?_iff.2 ⟨hid, rfl⟩, built.costWithin_eq hid .exact hid,
    Derivation.costOn_exact_eq_sum _, Derivation.costOn_exact_nonneg gradual standing,
    Derivation.costOn_exact_eq_zero_iff gradual standing, fun attachment hmem => ?_, ?_⟩
  · exact ⟨(standing attachment hmem).distance_pos, (standing attachment hmem).cost_bounds gradual⟩
  · rintro root remnant arg adjuncts heq
    rw [heq, Derivation.costOn_exact_node, Derivation.costOn_exact_node, Option.elim_some,
      Option.elim_none, zero_add]

/-- A noun that is free to move, and a verb whose second part takes a noun. -/
def remoteEntries : List Entry :=
  [⟨"n", [⟨[], [], [⟨none, "N", []⟩, ⟨none, "moves", []⟩]⟩]⟩,
    ⟨"v", [⟨[], [], [⟨none, "T", []⟩]⟩, ⟨[], [⟨some .select, "N", []⟩], []⟩]⟩]

/-- The session of a noun with the first part of the verb between it and its head. -/
def remote : Session :=
  ofEntries (.ofEntries remoteEntries) { Options.standard with maxRoutes := 10 } [0, 1]

lemma remote_started :
    Session.start (.ofEntries remoteEntries) ["n", "v"]
      { Options.standard with maxRoutes := 10 } = .ok remote := by
  have found : lookupAll (.ofEntries remoteEntries) ["n", "v"] = .ok [0, 1] := by decide +kernel
  rw [Session.start, found]
  rfl

/-- The verb with its remnant costs as much as the remnant, whose noun stands two signals before it
and in the next word. -/
theorem remote_cost :
    ∃ d, (remote.stepped 3).derivations[5]? = some d ∧ d.costOn .exact = 1 / 10 ∧
      ¬(∀ attachment ∈ d.attachments, attachment.distance = 1) ∧
      ∀ attachment ∈ d.attachments, ((attachment.distance : Rat) - 1) / 10 ≤ attachment.cost ∧
        attachment.cost ≤ 11 * ((attachment.distance : Rat) - 1) / 10 := by
  have reachable : Reachable (remote.stepped 3) := (Reachable.start remote_started).stepped 3
  have hid : (5 : RouteId) < (remote.stepped 3).search.arena.size := by decide +kernel
  obtain ⟨d, hd, -, -, -, zero_iff, bounds, -⟩ := cost_by_distance reachable hid
  have cost_eq : (remote.stepped 3).derivations[5]?.map (Derivation.costOn .exact) =
      some (1 / 10) := by decide +kernel
  rw [hd] at cost_eq
  have tenth : d.costOn .exact = 1 / 10 := Option.some.inj cost_eq
  refine ⟨d, hd, tenth, fun adjacent => ?_, fun attachment hmem => (bounds attachment hmem).2⟩
  rw [zero_iff.2 adjacent] at tenth
  exact absurd tenth (by decide +kernel)

/-- With its noun and its adjunct on either side a head costs nothing. -/
example : (sample.stepped 3).derivations[5]?.map (Derivation.costOn .exact) = some 0 := by
  decide +kernel

end Session

end MergeGrammar
