import MergeGrammar.Proofs.Appearance
import MergeGrammar.Proofs.DerivationSoundness

/-!
# Drawn trees

The two trees of a derivation differ in their labels only. They have one frame, a binary tree with a
word part at each leaf, and each word part of the derivation stands at one leaf. Wherever a
component is put to the left or to the right, both trees put it on the same side.
-/

namespace MergeGrammar

/-- A binary tree with contents at its leaves. -/
inductive Frame (α : Type) where
  | leaf (item : α)
  | join (left right : Frame α)
deriving DecidableEq, Repr

namespace Frame

variable {α β : Type}

def map (f : α → β) : Frame α → Frame β
  | leaf item => leaf (f item)
  | join left right => join (left.map f) (right.map f)

/-- What stands at the leaves, from left to right. -/
def leaves : Frame α → List α
  | leaf item => [item]
  | join left right => left.leaves ++ right.leaves

/-- The number of inner nodes. -/
def joins : Frame α → Nat
  | leaf _ => 0
  | join left right => left.joins + right.joins + 1

lemma length_leaves (frame : Frame α) : frame.leaves.length = frame.joins + 1 := by
  induction frame with
  | leaf item => rfl
  | join left right ihl ihr =>
    rw [leaves, joins, List.length_append, ihl, ihr]
    omega

/-- A text is the bracket form of a frame: a leaf is written as it is, and an inner node between
brackets with some label in front of its two halves. -/
inductive Written : Frame String → String → Prop where
  | leaf (name : String) : Written (.leaf name) name
  | join {left right : Frame String} {before after : String} (label : String)
    (hleft : Written left before) (hright : Written right after) :
    Written (.join left right) ("[." ++ label ++ " " ++ before ++ " " ++ after ++ "]")

end Frame

namespace Bracketing

/-- A bracketing without the labels of its inner nodes. -/
def frame : Bracketing → Frame String
  | leaf label => .leaf label
  | branch _ left right => .join left.frame right.frame

lemma written (tree : Bracketing) : tree.frame.Written tree.text := by
  induction tree with
  | leaf label => exact .leaf label
  | branch label left right ihl ihr => exact .join label ihl ihr

end Bracketing

namespace WordPart

def named (graph : Graph) (part : WordPart) : String := (graph.entry part.entry).name

def numbered (graph : Graph) (part : WordPart) : String :=
  part.named graph ++ "-" ++ toString part.signal

end WordPart

/-- Two trees have one frame with the given word parts at its leaves. The first tree shows them by
name, the second one by name and signal. -/
def Bracketing.Twins (graph : Graph) (parts : List WordPart) (labels signals : Bracketing) : Prop :=
  ∃ frame : Frame WordPart, frame.leaves.Perm parts ∧
    labels.frame = frame.map (WordPart.named graph) ∧
    signals.frame = frame.map (WordPart.numbered graph)

namespace Bracketing.Twins

variable {graph : Graph} {parts others : List WordPart}
  {labels signals labels' signals' : Bracketing}

lemma leaf (graph : Graph) (part : WordPart) :
    Twins graph [part] (.leaf (part.named graph)) (.leaf (part.numbered graph)) :=
  ⟨.leaf part, List.Perm.refl _, rfl, rfl⟩

lemma perm (h : Twins graph parts labels signals) (same : parts.Perm others) :
    Twins graph others labels signals := by
  obtain ⟨frame, leaves, rest⟩ := h
  exact ⟨frame, leaves.trans same, rest⟩

/-- Twins stay twins when both get other twins on the same side, whatever the labels are. -/
lemma branch (h : Twins graph parts labels signals) (h' : Twins graph others labels' signals')
    (label label' : String) : Twins graph (parts ++ others) (.branch label labels labels')
      (.branch label' signals signals') := by
  obtain ⟨left, left_leaves, left_named, left_numbered⟩ := h
  obtain ⟨right, right_leaves, right_named, right_numbered⟩ := h'
  refine ⟨.join left right, left_leaves.append right_leaves, ?_, ?_⟩
  · rw [frame, left_named, right_named, Frame.map]
  · rw [frame, left_numbered, right_numbered, Frame.map]

lemma branch_left (h : Twins graph parts labels signals) (h' : Twins graph others labels' signals')
    (label label' : String) : Twins graph (parts ++ others) (.branch label labels' labels)
      (.branch label' signals' signals) :=
  (h'.branch h label label').perm List.perm_append_comm

end Bracketing.Twins

namespace Derivation

variable {graph : Graph}

/-- Both trees take the adjuncts of a host in the same order and on the same sides. -/
lemma twins_adjuncts {adjuncts : List Derivation}
    (hadjuncts : ∀ d ∈ adjuncts, Bracketing.Twins graph d.wordParts (d.labelTree graph)
      (d.signalTree graph)) (host : Signal) {parts : List WordPart} {labels signals : Bracketing}
    (h : Bracketing.Twins graph parts labels signals) (label : String) (joined : List String) :
    Bracketing.Twins graph (parts ++ wordPartsOfAll adjuncts)
      (labelAdjuncts graph host label labels adjuncts).2
      (signalAdjuncts graph host joined signals adjuncts) := by
  induction adjuncts generalizing parts labels signals label joined with
  | nil =>
    rw [wordPartsOfAll, List.append_nil]
    exact h
  | cons d ds ih =>
    have hd := hadjuncts d List.mem_cons_self
    have hds : ∀ e ∈ ds, Bracketing.Twins graph e.wordParts (e.labelTree graph)
        (e.signalTree graph) := fun e he => hadjuncts e (List.mem_cons_of_mem _ he)
    rw [labelAdjuncts, signalAdjuncts, wordPartsOfAll, ← List.append_assoc]
    dsimp only
    split
    · exact ih hds (h.branch hd _ _) _ _
    · exact ih hds (h.branch_left hd _ _) _ _

/-- The label tree and the signal tree of a derivation are twins. -/
lemma twins (graph : Graph) (d : Derivation) :
    Bracketing.Twins graph d.wordParts (d.labelTree graph) (d.signalTree graph) := by
  induction d using Derivation.induct with
  | node root part arg adjuncts hpart harg hadjuncts =>
    have leaf := Bracketing.Twins.leaf graph root
    have base : ∀ label label' : Derivation → String,
        Bracketing.Twins graph (root :: slotParts part)
          (part.elim (.leaf (root.named graph)) fun d =>
            .branch (label d) (.leaf (root.named graph)) (d.labelTree graph))
          (part.elim (.leaf (root.numbered graph)) fun d =>
            .branch (label' d) (.leaf (root.numbered graph)) (d.signalTree graph)) := by
      intro label label'
      cases part with
      | none => exact leaf
      | some d => exact leaf.branch (hpart d rfl) _ _
    have parts_perm : ((root :: slotParts part) ++ wordPartsOfAll adjuncts ++ slotParts arg).Perm
        (node root part arg adjuncts).wordParts := by
      rw [wordParts_node, List.cons_append, List.cons_append, List.perm_cons, List.append_assoc,
        List.append_assoc]
      exact List.perm_append_comm.append_left _
    rw [labelTree_node, signalTree_node]
    refine Bracketing.Twins.perm ?_ parts_perm
    dsimp only
    have hosted := fun label joined => twins_adjuncts hadjuncts root.signal
      (base (fun _ => root.named graph) label) (root.named graph) joined
    cases arg with
    | none =>
      have slot_eq : slotParts none = [] := rfl
      rw [slot_eq, List.append_nil]
      exact hosted _ _
    | some d =>
      -- The exception for free heads is the same in both trees.
      dsimp only [Option.elim_some]
      split
      · exact (hosted _ _).branch (harg d rfl) _ _
      · exact (hosted _ _).branch_left (harg d rfl) _ _

/-- Both trees of the derivation are written in bracket form with one frame. At a leaf stands the
name of its word part, and in the signal tree also its signal. -/
structure DrawnAs (graph : Graph) (d : Derivation) (frame : Frame WordPart) : Prop where
  label_frame : (d.tree graph .label).frame = frame.map (WordPart.named graph)
  label_written : (frame.map (WordPart.named graph)).Written (d.tree graph .label).text
  signal_frame : (d.tree graph .signal).frame = frame.map (WordPart.numbered graph)
  signal_written : (frame.map (WordPart.numbered graph)).Written (d.tree graph .signal).text

lemma exists_drawnAs (graph : Graph) (d : Derivation) :
    ∃ frame, d.DrawnAs graph frame ∧ frame.leaves.Perm d.wordParts := by
  obtain ⟨frame, leaves, label_frame, signal_frame⟩ := d.twins graph
  refine ⟨frame, ⟨label_frame, ?_, signal_frame, ?_⟩, leaves⟩
  · rw [← label_frame]
    exact Bracketing.written _
  · rw [← signal_frame]
    exact Bracketing.written _

end Derivation

namespace Session

variable {session : Session}

/-- The two trees of every stored route have one frame with a leaf for each of its signals and an
inner node for each of its combinations. What stands at the leaves are word parts that have been
read, and their signals are those of the route, each of them once. -/
theorem trees_drawn (reachable : Reachable session) {id : RouteId}
    (hid : id < session.search.arena.size) :
    let route := session.search.arena.route id
    ∃ d frame, session.derivations[id]? = some d ∧ d.DrawnAs session.graph frame ∧
      frame.leaves.length = route.size ∧ frame.joins = route.weight ∧
      (∀ part ∈ frame.leaves, part.StandsIn session.reading.wordParts) ∧
      (frame.leaves.map WordPart.signal).Nodup ∧
      ∀ signal, signal ∈ frame.leaves.map WordPart.signal ↔ signal ∈ route.signals := by
  have stage := reachable.stage
  have built := stage.allBuilt.1
  have covers := built.covers hid
  obtain ⟨frame, drawn, leaves⟩ := (session.search.tree id).exists_drawnAs session.graph
  have signals : (frame.leaves.map WordPart.signal).Perm
      (session.search.arena.route id).signals.toList := (leaves.map _).trans covers.signals
  have length_eq : frame.leaves.length = (session.search.arena.route id).size := by
    rw [← List.length_map WordPart.signal, signals.length_eq]
    rfl
  have joins_eq : frame.joins = (session.search.arena.route id).weight := by
    have hsize := covers.size
    rw [← length_eq, frame.length_leaves] at hsize
    exact Nat.succ.inj hsize
  refine ⟨_, frame, stage.getElem?_iff.2 ⟨hid, rfl⟩, drawn, length_eq, joins_eq,
    fun part hpart => ?_, signals.nodup_iff.2 (SignalSet.nodup_toList _), fun signal => ?_⟩
  · exact built.standsIn_tree hid part (leaves.mem_iff.1 hpart)
  · rw [signals.mem_iff]
    exact SignalSet.mem_toList

/-- The last route of the sample is drawn with three leaves and two inner nodes. -/
theorem sample_trees_drawn :
    ∃ d frame, (sample.stepped 3).derivations[5]? = some d ∧
      d.DrawnAs (sample.stepped 3).graph frame ∧ frame.leaves.length = 3 ∧ frame.joins = 2 := by
  have hid : (5 : RouteId) < (sample.stepped 3).search.arena.size := by decide +kernel
  obtain ⟨d, frame, hd, drawn, length_eq, joins_eq, -⟩ := trees_drawn (sample_reachable 3) hid
  have size_eq : ((sample.stepped 3).search.arena.route 5).size = 3 := by decide +kernel
  have weight_eq : ((sample.stepped 3).search.arena.route 5).weight = 2 := by decide +kernel
  exact ⟨d, frame, hd, drawn, length_eq.trans size_eq, joins_eq.trans weight_eq⟩

example : ((sample.stepped 3).derivations[5]?.map fun d =>
    ((d.tree (sample.stepped 3).graph .label).text, (d.tree (sample.stepped 3).graph .signal).text)) =
      some ("[.h+d a [.h+d h d]]", "[.1-2-3 a-1 [.2M-3 h-2 d-3]]") := by decide +kernel

end Session

end MergeGrammar
