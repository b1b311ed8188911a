import Mathlib.Data.Bool.Basic
import Mathlib.Logic.Function.Basic
import Mathlib.Order.Bounds.Basic
import MergeGrammar.Proofs.Unfolding

/-!
# Rules of derivation

Derivations without movers are generated from the word parts that have been read by attaching one
derivation to another: as an argument or an adjunct along an edge, or as the rest of the same word.
The rules ask for a free slot, for derivations that stand apart and, along edges, next to each other.
What they generate depends on which edges there are, not on their order, and not on how the features
are numbered.
-/

namespace MergeGrammar

namespace Derivation

def adjuncts : Derivation → List Derivation
  | node _ _ _ adjuncts => adjuncts

/-- Every signal of one derivation is below every signal of the other. -/
def Precedes (d e : Derivation) : Prop := ∀ s ∈ d.signals, ∀ t ∈ e.signals, s < t

/-- Two derivations share no signal, and their stretches do not cross. -/
structure Apart (d e : Derivation) : Prop where
  signals : ∀ s ∈ d.signals, s ∉ e.signals
  stretches : d.Precedes e ∨ e.Precedes d

/-- The last signal of one derivation comes right before the first one of the other. -/
def EndsBefore (d e : Derivation) : Prop :=
  ∃ s, IsGreatest {x | x ∈ d.signals} s ∧ IsLeast {x | x ∈ e.signals} (s + 1)

def Adjacent (d e : Derivation) : Prop := d.EndsBefore e ∨ e.EndsBefore d

/-- No adjunct of the host clashes with another word part that is attached along the same kind of
edge. -/
def Welcomes (graph : Graph) (host newcomer : Derivation) : Prop :=
  ∀ settled ∈ host.adjuncts, (graph.entry settled.root.entry).clashes graph
    ((graph.entry host.root.entry).adjunctNames graph) (graph.entry newcomer.root.entry) = false

/-- Neither the adjuncts of the host clash with the adjunct nor its own adjuncts with the host. -/
def Agrees (graph : Graph) (host adjunct : Derivation) : Prop :=
  host.Welcomes graph adjunct ∧ adjunct.Welcomes graph host

end Derivation

/-- What derivations are generated from. -/
structure Premises where
  graph : Graph
  checkAgreement : Bool
  read : Array WordPart
  /-- From heads to arguments and from hosts to adjuncts. -/
  edge : MergeKind → Signal → Signal → Prop

namespace Premises

/-- What a relation asks of two derivations besides room. -/
def Licenses (premises : Premises) (base sub : Derivation) : Relation → Prop
  | .argument => premises.edge .merge base.root.signal sub.root.signal ∧ base.Adjacent sub
  | .adjunction =>
    premises.edge .pairMerge base.root.signal sub.root.signal ∧ base.Adjacent sub ∧
      (premises.checkAgreement = true → base.Agrees premises.graph sub)
  | .part =>
    (premises.graph.entry sub.root.entry).isFirstPart = false ∧
      base.root.signal + 1 = sub.root.signal

structure Allows (premises : Premises) (base sub : Derivation) (relation : Relation) : Prop where
  room : base.HasRoom relation
  apart : base.Apart sub
  licensed : premises.Licenses base sub relation

/-- The derivations that can be generated. -/
inductive Derives (premises : Premises) : Derivation → Prop where
  | leaf {part : WordPart} (standing : part.StandsIn premises.read) :
    Derives premises (.node part none none [])
  | attach {base sub : Derivation} {relation : Relation} (hbase : Derives premises base)
    (hsub : Derives premises sub) (allowed : premises.Allows base sub relation) :
    Derives premises (base.attach sub relation)

end Premises

/-! ### The numbers of features -/

/-- Another graph has the same word parts with the same features, under other numbers. -/
structure Graph.Renumbers (rename : FeatureId → FeatureId) (graph other : Graph) : Prop where
  injective : Function.Injective rename
  first : ∀ entry, (other.entry entry).isFirstPart = (graph.entry entry).isFirstPart
  mem_features : ∀ entry id, id ∈ (other.entry entry).features ↔
    ∃ old ∈ (graph.entry entry).features, rename old = id
  feature_eq : ∀ entry, ∀ id ∈ (graph.entry entry).features,
    (other.feature (rename id)).feature = (graph.feature id).feature

namespace LexicalEntry

variable {graph : Graph} {entry settled newcomer : LexicalEntry}

lemma mem_adjunctNames {name : String} : name ∈ entry.adjunctNames graph ↔
    ∃ id ∈ entry.features, (graph.feature id).feature.sign = some .adjoin ∧
      (graph.feature id).feature.name = name := by
  simp [adjunctNames, and_assoc]

lemma clashes_iff {names : List String} : settled.clashes graph names newcomer = true ↔
    ∃ id ∈ settled.features, (graph.feature id).feature.isPositive = true ∧
      (graph.feature id).feature.name ∈ names ∧ id ∉ newcomer.features := by
  simp [clashes, and_assoc]

end LexicalEntry

namespace Graph.Renumbers

variable {rename : FeatureId → FeatureId} {graph other : Graph}

lemma mem_adjunctNames (h : graph.Renumbers rename other) (entry : EntryId) (name : String) :
    name ∈ (other.entry entry).adjunctNames other ↔
      name ∈ (graph.entry entry).adjunctNames graph := by
  rw [LexicalEntry.mem_adjunctNames, LexicalEntry.mem_adjunctNames]
  constructor
  · rintro ⟨id, hid, hsign, hname⟩
    obtain ⟨old, hold, rfl⟩ := (h.mem_features entry id).1 hid
    rw [h.feature_eq entry old hold] at hsign hname
    exact ⟨old, hold, hsign, hname⟩
  · rintro ⟨id, hid, hsign, hname⟩
    rw [← h.feature_eq entry id hid] at hsign hname
    exact ⟨rename id, (h.mem_features entry _).2 ⟨id, hid, rfl⟩, hsign, hname⟩

lemma clashes_eq (h : graph.Renumbers rename other) (settled host newcomer : EntryId) :
    (other.entry settled).clashes other ((other.entry host).adjunctNames other)
        (other.entry newcomer) =
      (graph.entry settled).clashes graph ((graph.entry host).adjunctNames graph)
        (graph.entry newcomer) := by
  rw [Bool.eq_iff_iff, LexicalEntry.clashes_iff, LexicalEntry.clashes_iff]
  simp only [h.mem_adjunctNames, h.mem_features]
  constructor
  · rintro ⟨_, ⟨old, hold, rfl⟩, hpositive, hname, hnew⟩
    rw [h.feature_eq settled old hold] at hpositive hname
    exact ⟨old, hold, hpositive, hname, fun hmem => hnew ⟨old, hmem, rfl⟩⟩
  · rintro ⟨old, hold, hpositive, hname, hnew⟩
    rw [← h.feature_eq settled old hold] at hpositive hname
    refine ⟨rename old, ⟨old, hold, rfl⟩, hpositive, hname, ?_⟩
    rintro ⟨id, hmem, heq⟩
    exact hnew (h.injective heq ▸ hmem)

lemma agrees_iff (h : graph.Renumbers rename other) (d e : Derivation) :
    d.Agrees other e ↔ d.Agrees graph e := by
  simp only [Derivation.Agrees, Derivation.Welcomes, h.clashes_eq]

end Graph.Renumbers

namespace Premises

/-- The same word parts, edges and choice about agreement, in a graph with other numbers. -/
structure Matches (rename : FeatureId → FeatureId) (premises other : Premises) : Prop where
  graph : premises.graph.Renumbers rename other.graph
  checkAgreement_eq : other.checkAgreement = premises.checkAgreement
  read_eq : other.read = premises.read
  edge_iff : ∀ kind s t, other.edge kind s t ↔ premises.edge kind s t

variable {rename : FeatureId → FeatureId} {premises other : Premises}

lemma Matches.refl (premises : Premises) : premises.Matches id premises where
  graph := ⟨Function.injective_id, fun _ => rfl, fun _ _ => by simp, fun _ _ _ => rfl⟩
  checkAgreement_eq := rfl
  read_eq := rfl
  edge_iff _ _ _ := Iff.rfl

lemma Matches.allows_iff (h : premises.Matches rename other) {base sub : Derivation}
    {relation : Relation} :
    other.Allows base sub relation ↔ premises.Allows base sub relation := by
  have licenses : other.Licenses base sub relation ↔ premises.Licenses base sub relation := by
    cases relation <;>
      simp only [Licenses, h.edge_iff, h.checkAgreement_eq, h.graph.agrees_iff, h.graph.first]
  exact ⟨fun ⟨room, apart, licensed⟩ => ⟨room, apart, licenses.1 licensed⟩,
    fun ⟨room, apart, licensed⟩ => ⟨room, apart, licenses.2 licensed⟩⟩

/-- The same derivations are generated whatever the features are numbered. -/
theorem Matches.derives_iff (h : premises.Matches rename other) {d : Derivation} :
    other.Derives d ↔ premises.Derives d := by
  constructor
  · intro derived
    induction derived with
    | leaf standing => exact .leaf (h.read_eq ▸ standing)
    | attach _ _ allowed hbase hsub => exact .attach hbase hsub (h.allows_iff.1 allowed)
  · intro derived
    induction derived with
    | leaf standing => exact .leaf (h.read_eq ▸ standing)
    | attach _ _ allowed hbase hsub => exact .attach hbase hsub (h.allows_iff.2 allowed)

end Premises

end MergeGrammar
