import MergeGrammar.Derivation.Bracketing
import MergeGrammar.Derivation.Cost
import MergeGrammar.Proofs.Renumbering

/-!
# Trees and costs under other numbers

The trees of a derivation show names and signals, and its cost counts words and signals. Neither
depends on the numbers of the entries, as long as they keep their names and stay as free to move.
-/

namespace MergeGrammar

/-- The entry of a word part has the same name under its other number and is as free to move. -/
structure WordPart.Alike (rename : EntryId → EntryId) (graph other : Graph) (part : WordPart) :
    Prop where
  name_eq : (other.entry (rename part.entry)).name = (graph.entry part.entry).name
  isFree_eq : (other.entry (rename part.entry)).isFree = (graph.entry part.entry).isFree

namespace Derivation

/-! ### What is shown of a node -/

section Nodes

variable {graph : Graph} (root : WordPart) (part arg : Option Derivation)
  (adjuncts : List Derivation)

lemma labelTree_node : labelTree graph (.node root part arg adjuncts) =
    let entry := graph.entry root.entry
    let base := part.elim (.leaf entry.name) fun d =>
      .branch entry.name (.leaf entry.name) (labelTree graph d)
    let hosted := labelAdjuncts graph root.signal entry.name base adjuncts
    arg.elim hosted.2 fun d =>
      if root.signal < d.root.signal && !entry.isFree then
        .branch hosted.1 hosted.2 (labelTree graph d)
      else .branch hosted.1 (labelTree graph d) hosted.2 := by
  cases part <;> cases arg <;> rfl

lemma canMove_node : canMove graph (.node root part arg adjuncts) =
    ((graph.entry root.entry).isFree || arg.elim false (canMove graph) ||
      adjuncts.any (canMove graph)) := by
  have any_eq : anyCanMove graph adjuncts = adjuncts.any (canMove graph) := by
    induction adjuncts with
    | nil => rfl
    | cons d ds ih => rw [anyCanMove, ih, List.any_cons]
  rw [← any_eq]
  cases arg <;> rfl

lemma signalTree_node : signalTree graph (.node root part arg adjuncts) =
    let whole := node root part arg adjuncts
    let entry := graph.entry root.entry
    let word := Bracketing.leaf (entry.name ++ "-" ++ toString root.signal)
    let head := if whole.canMove graph then toString root.signal ++ "M" else toString root.signal
    let base := part.elim word fun d =>
      .branch (joinSignals (head :: d.signals.toList.map toString)) word (signalTree graph d)
    let hosted := signalAdjuncts graph root.signal [head] base adjuncts
    arg.elim hosted fun d =>
      let label := joinSignals (whole.signals.toList.map toString)
      if root.signal < d.root.signal && !entry.isFree then .branch label hosted (signalTree graph d)
      else .branch label (signalTree graph d) hosted := by
  cases part <;> cases arg <;> rfl

lemma arrows_node : arrows graph (.node root part arg adjuncts) =
    let hosted := arrowAdjuncts graph root.signal (graph.entry root.entry).name adjuncts
    let headed := arg.elim hosted fun d =>
      if root.signal < d.root.signal then "(" ++ hosted ++ "<-" ++ arrows graph d ++ ")"
      else "(" ++ arrows graph d ++ "->" ++ hosted ++ ")"
    part.elim headed fun d => headed ++ "." ++ arrows graph d := by
  cases part <;> cases arg <;> rfl

lemma costOn_node {α : Type} (scale : CostScale α) : costOn scale (.node root part arg adjuncts) =
    let remnant := part.elim scale.zero (costOn scale)
    let headed := arg.elim remnant fun d =>
      scale.add remnant (scale.add (d.attachmentCost scale root) (costOn scale d))
    addAdjunctCosts scale root headed adjuncts := by
  cases part <;> cases arg <;> rfl

/-! The adjuncts of a node are taken one after another. -/

variable (host : Signal)

lemma joinAdjunctLabels_eq_foldl (label : String) : joinAdjunctLabels graph host label adjuncts =
    adjuncts.foldl (fun label d => if host < d.root.signal then label ++ "+" ++ adjunctLabel graph d
      else adjunctLabel graph d ++ "+" ++ label) label := by
  induction adjuncts generalizing label with
  | nil => rfl
  | cons d ds ih => exact ih _

lemma joinAdjunctSignals_eq_foldl (signals : List Signal) :
    joinAdjunctSignals host signals adjuncts =
      adjuncts.foldl (fun signals d => if host < d.root.signal then signals ++ adjunctSignals d
        else adjunctSignals d ++ signals) signals := by
  induction adjuncts generalizing signals with
  | nil => rfl
  | cons d ds ih => exact ih _

lemma labelAdjuncts_eq_foldl (label : String) (tree : Bracketing) :
    labelAdjuncts graph host label tree adjuncts =
      adjuncts.foldl (fun hosted d =>
        if host < d.root.signal then
          let label := hosted.1 ++ "+" ++ adjunctLabel graph d
          (label, .branch label hosted.2 (labelTree graph d))
        else
          let label := adjunctLabel graph d ++ "+" ++ hosted.1
          (label, .branch label (labelTree graph d) hosted.2)) (label, tree) := by
  induction adjuncts generalizing label tree with
  | nil => rfl
  | cons d ds ih =>
    rw [labelAdjuncts, List.foldl_cons]
    split
    · exact ih _ _
    · exact ih _ _

lemma signalAdjuncts_eq_foldl (label : List String) (tree : Bracketing) :
    signalAdjuncts graph host label tree adjuncts =
      (adjuncts.foldl (fun hosted d =>
        let others := (adjunctSignals d).map toString
        if host < d.root.signal then
          let label := hosted.1 ++ others
          (label, .branch (joinSignals label) hosted.2 (signalTree graph d))
        else
          let label := others ++ hosted.1
          (label, .branch (joinSignals label) (signalTree graph d) hosted.2)) (label, tree)).2 := by
  induction adjuncts generalizing label tree with
  | nil => rfl
  | cons d ds ih =>
    rw [signalAdjuncts, List.foldl_cons]
    dsimp only
    split
    · exact ih _ _
    · exact ih _ _

lemma arrowAdjuncts_eq_foldl (text : String) : arrowAdjuncts graph host text adjuncts =
    adjuncts.foldl (fun text d =>
      if host < d.root.signal then "(" ++ text ++ "+" ++ arrows graph d ++ ")"
      else "(" ++ arrows graph d ++ "+" ++ text ++ ")") text := by
  induction adjuncts generalizing text with
  | nil => rfl
  | cons d ds ih => exact ih _

lemma addAdjunctCosts_eq_foldl {α : Type} (scale : CostScale α) (cost : α) :
    addAdjunctCosts scale root cost adjuncts =
      adjuncts.foldl (fun cost d =>
        scale.add cost (scale.add (d.attachmentCost scale root) (costOn scale d))) cost := by
  induction adjuncts generalizing cost with
  | nil => rfl
  | cons d ds ih => exact ih _

end Nodes

/-! ### Derivations that look the same -/

variable {rename : EntryId → EntryId} {graph other : Graph}

/-- All word parts of the derivation look the same under their other numbers. -/
def Alike (rename : EntryId → EntryId) (graph other : Graph) (d : Derivation) : Prop :=
  ∀ part ∈ d.wordParts, part.Alike rename graph other

lemma Alike.component {root : WordPart} {part arg : Option Derivation} {adjuncts : List Derivation}
    (h : (node root part arg adjuncts).Alike rename graph other) {d : Derivation}
    (hd : part = some d ∨ arg = some d ∨ d ∈ adjuncts) : d.Alike rename graph other :=
  fun p hp => h p (mem_wordParts_of_slot hd hp)

/-- What passes from the components of a derivation that looks the same to the whole holds of it. -/
lemma Alike.induct {motive : Derivation → Prop}
    (node : ∀ root part arg adjuncts,
      (Derivation.node root part arg adjuncts).Alike rename graph other →
      root.Alike rename graph other → (∀ d, part = some d → motive d) →
      (∀ d, arg = some d → motive d) → (∀ d ∈ adjuncts, motive d) →
      motive (.node root part arg adjuncts))
    {d : Derivation} (alike : d.Alike rename graph other) : motive d := by
  induction d using Derivation.induct with
  | node root part arg adjuncts hpart harg hadjuncts =>
    refine node root part arg adjuncts alike (alike root (root_mem_wordParts _)) ?_ ?_ ?_
    · exact fun d hd => hpart d hd (alike.component (Or.inl hd))
    · exact fun d hd => harg d hd (alike.component (Or.inr (Or.inl hd)))
    · exact fun d hd => hadjuncts d hd (alike.component (Or.inr (Or.inr hd)))

lemma elim_renumber {β : Type} {slot : Option Derivation} {b : β} {f g : Derivation → β}
    (h : ∀ d, slot = some d → f (d.renumber rename) = g d) :
    (slot.map (renumber rename)).elim b f = slot.elim b g := by
  cases slot with
  | none => rfl
  | some d => exact h d rfl

lemma foldl_renumber {β : Type} {ds : List Derivation} {f g : β → Derivation → β}
    (h : ∀ b, ∀ d ∈ ds, f b (d.renumber rename) = g b d) (b : β) :
    (ds.map (renumber rename)).foldl f b = ds.foldl g b := by
  rw [List.foldl_map]
  exact List.foldl_ext _ _ b h

/-! ### Labels -/

lemma adjunctLabel_renumber {d : Derivation} (alike : d.Alike rename graph other) :
    adjunctLabel other (d.renumber rename) = adjunctLabel graph d := by
  refine alike.induct (motive := fun d => adjunctLabel other (d.renumber rename) =
    adjunctLabel graph d) ?_
  intro root part arg adjuncts _ hroot _ _ hadjuncts
  have name_eq : (other.entry (root.renumber rename).entry).name = (graph.entry root.entry).name :=
    hroot.name_eq
  rw [renumber_node, adjunctLabel, adjunctLabel, name_eq, joinAdjunctLabels_eq_foldl,
    joinAdjunctLabels_eq_foldl]
  refine foldl_renumber (fun label d hd => ?_) _
  rw [hadjuncts d hd, root_renumber]
  rfl

lemma adjunctSignals_renumber (d : Derivation) :
    adjunctSignals (d.renumber rename) = adjunctSignals d := by
  induction d using Derivation.induct with
  | node root part arg adjuncts _ _ hadjuncts =>
    rw [renumber_node, adjunctSignals, adjunctSignals, joinAdjunctSignals_eq_foldl,
      joinAdjunctSignals_eq_foldl]
    refine foldl_renumber (fun signals d hd => ?_) _
    rw [hadjuncts d hd, root_renumber]
    rfl

lemma canMove_renumber {d : Derivation} (alike : d.Alike rename graph other) :
    canMove other (d.renumber rename) = canMove graph d := by
  refine alike.induct (motive := fun d => canMove other (d.renumber rename) = canMove graph d) ?_
  intro root part arg adjuncts _ hroot _ harg hadjuncts
  have any_eq : (adjuncts.map (renumber rename)).any (canMove other) =
      adjuncts.any (canMove graph) := by
    rw [List.any_map, Bool.eq_iff_iff, List.any_eq_true, List.any_eq_true]
    refine exists_congr fun d => and_congr_right fun hd => ?_
    rw [Function.comp_apply, hadjuncts d hd]
  rw [renumber_node, canMove_node, canMove_node, any_eq, elim_renumber harg, ← hroot.isFree_eq]
  rfl

/-! ### Trees -/

theorem labelTree_renumber {d : Derivation} (alike : d.Alike rename graph other) :
    labelTree other (d.renumber rename) = labelTree graph d := by
  refine alike.induct (motive := fun d => labelTree other (d.renumber rename) =
    labelTree graph d) ?_
  intro root part arg adjuncts whole hroot hpart harg hadjuncts
  have hosted : ∀ label tree,
      labelAdjuncts other root.signal label tree (adjuncts.map (renumber rename)) =
        labelAdjuncts graph root.signal label tree adjuncts := by
    intro label tree
    rw [labelAdjuncts_eq_foldl, labelAdjuncts_eq_foldl]
    refine foldl_renumber (fun _ d hd => ?_) _
    have label_eq := adjunctLabel_renumber (whole.component (Or.inr (Or.inr hd)))
    rw [hadjuncts d hd, label_eq, root_renumber]
    rfl
  have base_eq : ∀ name, ((part.map (renumber rename)).elim (.leaf name) fun d =>
      Bracketing.branch name (.leaf name) (labelTree other d)) =
      part.elim (.leaf name) fun d => .branch name (.leaf name) (labelTree graph d) :=
    fun name => elim_renumber fun d hd => congrArg (Bracketing.branch name (.leaf name)) (hpart d hd)
  rw [renumber_node, labelTree_node, labelTree_node]
  dsimp only [WordPart.renumber]
  rw [hroot.name_eq, hroot.isFree_eq, base_eq, hosted]
  refine elim_renumber fun d hd => ?_
  rw [harg d hd, root_renumber]
  rfl

theorem signalTree_renumber {d : Derivation} (alike : d.Alike rename graph other) :
    signalTree other (d.renumber rename) = signalTree graph d := by
  refine alike.induct (motive := fun d => signalTree other (d.renumber rename) =
    signalTree graph d) ?_
  intro root part arg adjuncts whole hroot hpart harg hadjuncts
  have hosted : ∀ label tree,
      signalAdjuncts other root.signal label tree (adjuncts.map (renumber rename)) =
        signalAdjuncts graph root.signal label tree adjuncts := by
    intro label tree
    rw [signalAdjuncts_eq_foldl, signalAdjuncts_eq_foldl]
    refine congrArg Prod.snd (foldl_renumber (fun _ d hd => ?_) _)
    rw [hadjuncts d hd, adjunctSignals_renumber, root_renumber]
    rfl
  have base_eq : ∀ head word, ((part.map (renumber rename)).elim word fun d =>
      Bracketing.branch (joinSignals (head :: d.signals.toList.map toString)) word
        (signalTree other d)) =
      part.elim word fun d => .branch (joinSignals (head :: d.signals.toList.map toString)) word
        (signalTree graph d) :=
    fun head word => elim_renumber fun d hd => by rw [signals_renumber, hpart d hd]
  have canMove_eq := canMove_renumber whole
  have signals_eq := @signals_renumber rename (node root part arg adjuncts)
  rw [renumber_node] at canMove_eq signals_eq ⊢
  rw [signalTree_node, signalTree_node]
  dsimp only
  rw [canMove_eq, signals_eq]
  dsimp only [WordPart.renumber]
  rw [hroot.name_eq, base_eq, hosted]
  refine elim_renumber fun d hd => ?_
  simp only [harg d hd, root_renumber, hroot.isFree_eq]
  rfl

theorem arrows_renumber {d : Derivation} (alike : d.Alike rename graph other) :
    arrows other (d.renumber rename) = arrows graph d := by
  refine alike.induct (motive := fun d => arrows other (d.renumber rename) = arrows graph d) ?_
  intro root part arg adjuncts _ hroot hpart harg hadjuncts
  have hosted : ∀ text,
      arrowAdjuncts other (root.renumber rename).signal text (adjuncts.map (renumber rename)) =
        arrowAdjuncts graph root.signal text adjuncts := by
    intro text
    rw [arrowAdjuncts_eq_foldl, arrowAdjuncts_eq_foldl]
    refine foldl_renumber (fun _ d hd => ?_) _
    rw [hadjuncts d hd, root_renumber]
    rfl
  have headed : ∀ text, ((arg.map (renumber rename)).elim text fun d =>
      if (root.renumber rename).signal < d.root.signal then
        "(" ++ text ++ "<-" ++ arrows other d ++ ")"
      else "(" ++ arrows other d ++ "->" ++ text ++ ")") =
      arg.elim text fun d =>
        if root.signal < d.root.signal then "(" ++ text ++ "<-" ++ arrows graph d ++ ")"
        else "(" ++ arrows graph d ++ "->" ++ text ++ ")" := by
    intro text
    refine elim_renumber fun d hd => ?_
    rw [harg d hd, root_renumber]
    rfl
  have name_eq : (other.entry (root.renumber rename).entry).name = (graph.entry root.entry).name :=
    hroot.name_eq
  rw [renumber_node, arrows_node, arrows_node]
  dsimp only
  rw [name_eq, hosted, headed]
  exact elim_renumber fun d hd => by rw [hpart d hd]

/-! ### Costs -/

lemma leftmost_renumber (d : Derivation) :
    (d.renumber rename).leftmost = d.leftmost.renumber rename := by
  rw [leftmost, leftmost, wordParts_renumber, root_renumber, List.foldl_map]
  exact List.foldl_hom _ fun _ _ => (apply_ite (WordPart.renumber rename) _ _ _).symm

lemma rightmost_renumber (d : Derivation) :
    (d.renumber rename).rightmost = d.rightmost.renumber rename := by
  rw [rightmost, rightmost, wordParts_renumber, root_renumber, List.foldl_map]
  exact List.foldl_hom _ fun _ _ => (apply_ite (WordPart.renumber rename) _ _ _).symm

variable {α : Type} (scale : CostScale α)

lemma attachmentCost_renumber (head : WordPart) (d : Derivation) :
    (d.renumber rename).attachmentCost scale (head.renumber rename) =
      d.attachmentCost scale head := by
  rw [attachmentCost, attachmentCost, root_renumber, leftmost_renumber, rightmost_renumber]
  rfl

theorem costOn_renumber (d : Derivation) : costOn scale (d.renumber rename) = costOn scale d := by
  induction d using Derivation.induct with
  | node root part arg adjuncts hpart harg hadjuncts =>
    have added : ∀ cost,
        addAdjunctCosts scale (root.renumber rename) cost (adjuncts.map (renumber rename)) =
          addAdjunctCosts scale root cost adjuncts := by
      intro cost
      rw [addAdjunctCosts_eq_foldl, addAdjunctCosts_eq_foldl]
      refine foldl_renumber (fun _ d hd => ?_) _
      rw [hadjuncts d hd, attachmentCost_renumber]
    rw [renumber_node, costOn_node, costOn_node]
    dsimp only
    rw [added, elim_renumber hpart]
    refine congrArg (addAdjunctCosts scale root · adjuncts) (elim_renumber fun d hd => ?_)
    rw [harg d hd, attachmentCost_renumber]

end Derivation

end MergeGrammar
