import MergeGrammar.Derivation.Bracketing
import MergeGrammar.Derivation.Cost
import MergeGrammar.Proofs.DerivationRules

/-!
# Other numbers for the entries

A derivation says which entries its word parts have by their numbers. Where the numbers change but the
word parts and what they ask for do not, the same derivations are generated, and they look the same
and cost the same.
-/

namespace MergeGrammar

/-- The word part with another number for its entry. -/
def WordPart.renumber (rename : EntryId → EntryId) (part : WordPart) : WordPart :=
  { part with entry := rename part.entry }

namespace Derivation

variable {rename : EntryId → EntryId}

mutual

/-- The derivation with other numbers for the entries of its word parts. -/
def renumber (rename : EntryId → EntryId) : Derivation → Derivation
  | .node root part arg adjuncts =>
    let remnant := match part with
      | none => none
      | some d => some (renumber rename d)
    let argument := match arg with
      | none => none
      | some d => some (renumber rename d)
    .node (root.renumber rename) remnant argument (renumberAll rename adjuncts)
termination_by structural d => d

def renumberAll (rename : EntryId → EntryId) : List Derivation → List Derivation
  | [] => []
  | d :: ds => renumber rename d :: renumberAll rename ds
termination_by structural ds => ds

end

lemma renumber_node (root : WordPart) (part arg : Option Derivation) (adjuncts : List Derivation) :
    renumber rename (.node root part arg adjuncts) = .node (root.renumber rename)
      (part.map (renumber rename)) (arg.map (renumber rename)) (adjuncts.map (renumber rename)) := by
  have all_eq : renumberAll rename adjuncts = adjuncts.map (renumber rename) := by
    induction adjuncts with
    | nil => rfl
    | cons d ds ih => rw [renumberAll, ih, List.map_cons]
  cases part <;> cases arg <;> simp [renumber, all_eq]

@[simp] lemma root_renumber (d : Derivation) :
    (d.renumber rename).root = d.root.renumber rename := by
  obtain ⟨root, part, arg, adjuncts⟩ := d
  rw [renumber_node]
  rfl

lemma adjuncts_renumber (d : Derivation) :
    (d.renumber rename).adjuncts = d.adjuncts.map (renumber rename) := by
  obtain ⟨root, part, arg, adjuncts⟩ := d
  rw [renumber_node]
  rfl

lemma attach_renumber (base sub : Derivation) (relation : Relation) :
    (base.attach sub relation).renumber rename =
      (base.renumber rename).attach (sub.renumber rename) relation := by
  obtain ⟨root, part, arg, adjuncts⟩ := base
  cases relation <;> simp [attach, renumber_node]

lemma hasRoom_renumber {d : Derivation} {relation : Relation} :
    (d.renumber rename).HasRoom relation ↔ d.HasRoom relation := by
  obtain ⟨root, part, arg, adjuncts⟩ := d
  rw [renumber_node]
  cases relation with
  | argument => exact Option.map_eq_none_iff
  | adjunction => exact Iff.rfl
  | part => exact Option.map_eq_none_iff

/-! ### Word parts and signals -/

lemma wordParts_renumber (d : Derivation) :
    (d.renumber rename).wordParts = d.wordParts.map (WordPart.renumber rename) := by
  induction d using Derivation.induct with
  | node root part arg adjuncts hpart harg hadjuncts =>
    have slot_eq : ∀ slot : Option Derivation, (∀ d, slot = some d →
        (d.renumber rename).wordParts = d.wordParts.map (WordPart.renumber rename)) →
        slotParts (slot.map (renumber rename)) =
          (slotParts slot).map (WordPart.renumber rename) := by
      intro slot h
      cases slot with
      | none => rfl
      | some d => exact h d rfl
    have adjuncts_eq : wordPartsOfAll (adjuncts.map (renumber rename)) =
        (wordPartsOfAll adjuncts).map (WordPart.renumber rename) := by
      rw [wordPartsOfAll_eq, wordPartsOfAll_eq, List.flatMap_map, List.map_flatMap]
      exact List.flatMap_congr hadjuncts
    rw [renumber_node, wordParts_node, wordParts_node, slot_eq part hpart, slot_eq arg harg,
      adjuncts_eq, List.map_cons, List.map_append, List.map_append]

@[simp] lemma signals_renumber (d : Derivation) : (d.renumber rename).signals = d.signals := by
  rw [signals, signals, wordParts_renumber, List.map_map]
  rfl

/-! ### What stands apart and agrees -/

lemma apart_renumber {d e : Derivation} :
    (d.renumber rename).Apart (e.renumber rename) ↔ d.Apart e := by
  constructor
  · rintro ⟨signals, stretches⟩
    simp only [Precedes, signals_renumber] at signals stretches
    exact ⟨signals, stretches⟩
  · rintro ⟨signals, stretches⟩
    refine ⟨?_, ?_⟩ <;> simp only [Precedes, signals_renumber]
    · exact signals
    · exact stretches

lemma adjacent_renumber {d e : Derivation} :
    (d.renumber rename).Adjacent (e.renumber rename) ↔ d.Adjacent e := by
  simp only [Adjacent, EndsBefore, signals_renumber]

lemma StandsIn.adjunct {read : Array WordPart} {d e : Derivation} (h : d.StandsIn read)
    (he : e ∈ d.adjuncts) : e.StandsIn read := by
  obtain ⟨root, part, arg, adjuncts⟩ := d
  exact h.component (Or.inr (Or.inr he))

/-- A word part that has been read is known by its signal, so no two derivations become the same. -/
lemma eq_of_renumber {read : Array WordPart} {d e : Derivation} (hd : d.StandsIn read)
    (he : e.StandsIn read) (heq : d.renumber rename = e.renumber rename) : d = e := by
  induction d using Derivation.induct generalizing e with
  | node root part arg adjuncts hpart harg hadjuncts =>
    obtain ⟨root', part', arg', adjuncts'⟩ := e
    have root_eq : root = root' := by
      have same := congrArg (fun d => d.root.signal) heq
      rw [root_renumber, root_renumber] at same
      exact hd.root.eq he.root same
    rw [renumber_node, renumber_node, node.injEq] at heq
    rw [root_eq, slot_eq_of_map_eq (fun d hslot e hslot' => hpart d hslot
        (hd.component (Or.inl hslot)) (he.component (Or.inl hslot'))) heq.2.1,
      slot_eq_of_map_eq (fun d hslot e hslot' => harg d hslot
        (hd.component (Or.inr (Or.inl hslot))) (he.component (Or.inr (Or.inl hslot')))) heq.2.2.1,
      list_eq_of_map_eq (fun d hmem e hmem' => hadjuncts d hmem
        (hd.component (Or.inr (Or.inr hmem))) (he.component (Or.inr (Or.inr hmem')))) heq.2.2.2]

end Derivation

namespace Premises

/-- What derivations are generated from, with other numbers for the entries. -/
structure Carries (rename : EntryId → EntryId) (premises other : Premises) : Prop where
  checkAgreement_eq : other.checkAgreement = premises.checkAgreement
  forth : ∀ part : WordPart, part.StandsIn premises.read → (part.renumber rename).StandsIn other.read
  back : ∀ part : WordPart, part.StandsIn other.read →
    ∃ old : WordPart, old.StandsIn premises.read ∧ old.renumber rename = part
  first_eq : ∀ part : WordPart, part.StandsIn premises.read →
    (other.graph.entry (rename part.entry)).isFirstPart =
      (premises.graph.entry part.entry).isFirstPart
  clashes_eq : ∀ host settled newcomer : WordPart, host.StandsIn premises.read →
    settled.StandsIn premises.read → newcomer.StandsIn premises.read →
    (other.graph.entry (rename settled.entry)).clashes other.graph
        ((other.graph.entry (rename host.entry)).adjunctNames other.graph)
        (other.graph.entry (rename newcomer.entry)) =
      (premises.graph.entry settled.entry).clashes premises.graph
        ((premises.graph.entry host.entry).adjunctNames premises.graph)
        (premises.graph.entry newcomer.entry)
  edge_iff : ∀ kind s t, other.edge kind s t ↔ premises.edge kind s t

variable {rename : EntryId → EntryId} {premises other : Premises}

lemma Derives.standsIn {d : Derivation} (h : premises.Derives d) : d.StandsIn premises.read := by
  induction h with
  | @leaf part standing =>
    intro p hp
    rw [Derivation.wordParts_node] at hp
    rw [List.mem_singleton.1 hp]
    exact standing
  | attach _ _ allowed hbase hsub =>
    intro p hp
    rw [(Derivation.wordParts_attach allowed.room).mem_iff, List.mem_append] at hp
    exact hp.elim (hbase p) (hsub p)

namespace Carries

variable (h : premises.Carries rename other)
include h

lemma welcomes_iff {host newcomer : Derivation} (hhost : host.StandsIn premises.read)
    (hnewcomer : newcomer.StandsIn premises.read) :
    (host.renumber rename).Welcomes other.graph (newcomer.renumber rename) ↔
      host.Welcomes premises.graph newcomer := by
  rw [Derivation.Welcomes, Derivation.adjuncts_renumber, List.forall_mem_map]
  refine forall₂_congr fun settled hsettled => ?_
  rw [Derivation.root_renumber, Derivation.root_renumber, Derivation.root_renumber]
  rw [← h.clashes_eq host.root settled.root newcomer.root hhost.root (hhost.adjunct hsettled).root
    hnewcomer.root]
  exact Iff.rfl

lemma allows_iff {base sub : Derivation} {relation : Relation} (hbase : base.StandsIn premises.read)
    (hsub : sub.StandsIn premises.read) :
    other.Allows (base.renumber rename) (sub.renumber rename) relation ↔
      premises.Allows base sub relation := by
  have agrees : (base.renumber rename).Agrees other.graph (sub.renumber rename) ↔
      base.Agrees premises.graph sub :=
    and_congr (h.welcomes_iff hbase hsub) (h.welcomes_iff hsub hbase)
  have first := h.first_eq _ hsub.root
  have licenses : other.Licenses (base.renumber rename) (sub.renumber rename) relation ↔
      premises.Licenses base sub relation := by
    cases relation <;> simp only [Licenses, h.edge_iff, h.checkAgreement_eq, agrees, first,
      Derivation.adjacent_renumber, Derivation.root_renumber, WordPart.renumber]
  constructor
  · rintro ⟨room, apart, licensed⟩
    exact ⟨Derivation.hasRoom_renumber.1 room, Derivation.apart_renumber.1 apart,
      licenses.1 licensed⟩
  · rintro ⟨room, apart, licensed⟩
    exact ⟨Derivation.hasRoom_renumber.2 room, Derivation.apart_renumber.2 apart,
      licenses.2 licensed⟩

/-- What is generated are the same derivations under other numbers. -/
theorem derives_iff {e : Derivation} :
    other.Derives e ↔ ∃ d, premises.Derives d ∧ d.renumber rename = e := by
  constructor
  · intro derived
    induction derived with
    | leaf standing =>
      obtain ⟨old, hold, rfl⟩ := h.back _ standing
      exact ⟨_, .leaf hold, Derivation.renumber_node _ _ _ _⟩
    | attach _ _ allowed hbase hsub =>
      obtain ⟨base, hbase, rfl⟩ := hbase
      obtain ⟨sub, hsub, rfl⟩ := hsub
      rw [h.allows_iff hbase.standsIn hsub.standsIn] at allowed
      exact ⟨_, .attach hbase hsub allowed, Derivation.attach_renumber _ _ _⟩
  · rintro ⟨d, derived, rfl⟩
    induction derived with
    | leaf standing =>
      rw [Derivation.renumber_node]
      exact .leaf (h.forth _ standing)
    | attach hbase hsub allowed ihbase ihsub =>
      rw [Derivation.attach_renumber]
      exact .attach ihbase ihsub ((h.allows_iff hbase.standsIn hsub.standsIn).2 allowed)

end Carries

end Premises

end MergeGrammar
