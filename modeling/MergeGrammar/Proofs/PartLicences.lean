import MergeGrammar.Proofs.DerivationRules
import MergeGrammar.Proofs.LicenceCompleteness

/-!
# Licences by the features of the parts

In a graph of written entries the number of a feature says no more than its text. Whom a word part is
licensed with and which adjuncts clash can therefore be read off the features of the parts, whatever
other words the graph has.
-/

namespace MergeGrammar

namespace Part

/-- The host asks for a feature that the partner offers but does not ask for as well. -/
def Licenses (kind : MergeKind) (host partner : Part) : Prop :=
  ∃ f ∈ host.features, f.mergeKind = some kind ∧ (∃ g ∈ partner.features, g.satisfies f = true) ∧
    f ∉ partner.features

/-- The settled adjunct offers a feature by whose name the host takes adjuncts and which the newcomer
lacks. -/
def Clashes (host settled newcomer : Part) : Prop :=
  ∃ f ∈ settled.features, f.isPositive = true ∧
    (∃ g ∈ host.features, g.sign = some .adjoin ∧ g.name = f.name) ∧ f ∉ newcomer.features

end Part

namespace Graph

variable {entries : List Entry}

/-- The number of a feature in the graph of some entries. -/
def number (entries : List Entry) (f : Feature) : FeatureId :=
  ((nodeFeatures entries).map Feature.text).idxOf f.text

lemma features_eq_map (entries : List Entry) (id : EntryId) :
    ((ofEntries entries).entry id).features =
      ((ofEntries entries).entry id).part.features.map (number entries) := by
  rcases entry_ofEntries entries id with hnone | ⟨entry, -, -, hfeatures⟩
  · rw [hnone]
    rfl
  · exact hfeatures

lemma mem_partFeatures_of_entry {id : EntryId} {f : Feature}
    (h : f ∈ ((ofEntries entries).entry id).part.features) : f ∈ partFeatures entries := by
  rcases entry_ofEntries entries id with hnone | ⟨entry, hentry, hpart, -⟩
  · rw [hnone] at h
    exact absurd h List.not_mem_nil
  · exact mem_partFeatures.2 ⟨entry, hentry, _, hpart, h⟩

variable (written : Written entries)
include written

lemma feature_number {id : EntryId} {f : Feature}
    (h : f ∈ ((ofEntries entries).entry id).part.features) :
    ((ofEntries entries).feature (number entries f)).feature = f :=
  feature_idxOf written (mem_partFeatures_of_entry h)

/-- A word part points to the number of a feature exactly if its part has the feature. -/
lemma number_mem_iff {id other : EntryId} {f : Feature}
    (h : f ∈ ((ofEntries entries).entry id).part.features) :
    number entries f ∈ ((ofEntries entries).entry other).features ↔
      f ∈ ((ofEntries entries).entry other).part.features := by
  rw [features_eq_map, List.mem_map]
  constructor
  · rintro ⟨g, hg, heq⟩
    rwa [← feature_number written hg, heq, feature_number written h] at hg
  · exact fun hf => ⟨f, hf, rfl⟩

/-- What holds of some feature node of a word part holds of the number of one of its features. -/
lemma exists_feature_iff {id : EntryId} {P : FeatureId → Feature → Prop} :
    (∃ number ∈ ((ofEntries entries).entry id).features,
      P number ((ofEntries entries).feature number).feature) ↔
    ∃ f ∈ ((ofEntries entries).entry id).part.features, P (number entries f) f := by
  rw [features_eq_map]
  constructor
  · rintro ⟨_, hmem, h⟩
    obtain ⟨f, hf, rfl⟩ := List.mem_map.1 hmem
    rw [feature_number written hf] at h
    exact ⟨f, hf, h⟩
  · rintro ⟨f, hf, h⟩
    refine ⟨_, List.mem_map_of_mem hf, ?_⟩
    rwa [feature_number written hf]

/-- Two word parts meet at a feature of some kind exactly if their parts say so. -/
lemma exists_meets_iff {kind : MergeKind} {host partner : WordPart} :
    (∃ id, ((ofEntries entries).feature id).target = some kind ∧
      host.Meets (ofEntries entries) id partner) ↔
    Part.Licenses kind ((ofEntries entries).entry host.entry).part
      ((ofEntries entries).entry partner.entry).part := by
  rw [← Licensing.suits_apart_iff ⟨entries, rfl⟩]
  simp only [Licensing.Suits, ← Feature.mergeKind_eq_some, and_assoc]
  rw [exists_feature_iff written (P := fun id f => f.mergeKind = some kind ∧
    (∃ positive ∈ ((ofEntries entries).entry partner.entry).features,
      ((ofEntries entries).feature positive).feature.satisfies f = true) ∧
    id ∉ ((ofEntries entries).entry partner.entry).features)]
  refine exists_congr fun f => and_congr_right fun hf => and_congr_right fun _ => ?_
  exact and_congr (exists_feature_iff written (P := fun _ g => g.satisfies f = true))
    (not_congr (number_mem_iff written hf))

lemma clashes_iff {host settled newcomer : EntryId} :
    ((ofEntries entries).entry settled).clashes (ofEntries entries)
        (((ofEntries entries).entry host).adjunctNames (ofEntries entries))
        ((ofEntries entries).entry newcomer) = true ↔
      Part.Clashes ((ofEntries entries).entry host).part ((ofEntries entries).entry settled).part
        ((ofEntries entries).entry newcomer).part := by
  rw [LexicalEntry.clashes_iff]
  rw [exists_feature_iff written (P := fun id f => f.isPositive = true ∧
    f.name ∈ ((ofEntries entries).entry host).adjunctNames (ofEntries entries) ∧
    id ∉ ((ofEntries entries).entry newcomer).features)]
  refine exists_congr fun f => and_congr_right fun hf => and_congr_right fun _ => ?_
  rw [LexicalEntry.mem_adjunctNames]
  exact and_congr
    (exists_feature_iff written (P := fun _ g => g.sign = some .adjoin ∧ g.name = f.name))
    (not_congr (number_mem_iff written hf))

end Graph

namespace Licensing

variable {entries : List Entry} {parts : List WordPart} {part : WordPart}

/-- What a word part is licensed for with earlier ones, given that all signals differ. -/
theorem exists_given_iff (written : Written entries)
    (distinct : ((parts ++ [part]).map WordPart.signal).Nodup) {kind : MergeKind} {s t : Signal} :
    (∃ id, (id, Licence.of kind s t) ∈ given (.ofEntries entries) parts part) ↔
      ∃ other ∈ parts,
        (s = part.signal ∧ t = other.signal ∧
          Part.Licenses kind ((Graph.ofEntries entries).entry part.entry).part
            ((Graph.ofEntries entries).entry other.entry).part) ∨
        (s = other.signal ∧ t = part.signal ∧
          Part.Licenses kind ((Graph.ofEntries entries).entry other.entry).part
            ((Graph.ofEntries entries).entry part.entry).part) := by
  have regular := Graph.regular_ofEntries written
  obtain ⟨distinct, fresh⟩ := distinct_concat distinct
  have tracks := (records_run (Graph.ofEntries entries) parts).tracks
  have parted := parted_run regular distinct
  obtain ⟨reached, activates⟩ := tracks.activate_fresh fresh
  constructor
  · rintro ⟨id, hgiven⟩
    obtain ⟨-, ⟨feature, host, announced⟩, hmet, -, hlicence⟩ :=
      activates.accepts.from_meeting _ hgiven
    obtain ⟨hkind, hs, ht⟩ := Meeting.licence?_eq_some.1 hlicence
    rw [Licence.kind_of] at hkind
    rw [Licence.upper_of] at hs
    rw [Licence.lower_of] at ht
    dsimp only at hkind hs ht
    subst hs ht
    obtain ⟨other, hother, -, ⟨rfl, rfl, -⟩ | ⟨rfl, rfl, -⟩⟩ := tracks.met activates hmet
    · have meets := (mem_meetings_host_iff regular tracks fresh activates parted distinct hother
        feature).1 hmet
      exact ⟨other, hother, Or.inl ⟨rfl, rfl, (Graph.exists_meets_iff written).1
        ⟨feature, hkind, meets⟩⟩⟩
    · have meets := (mem_meetings_announced_iff regular tracks fresh activates distinct hother
        feature).1 hmet
      exact ⟨other, hother, Or.inr ⟨rfl, rfl, (Graph.exists_meets_iff written).1
        ⟨feature, hkind, meets⟩⟩⟩
  · rintro ⟨other, hother, ⟨rfl, rfl, licensed⟩ | ⟨rfl, rfl, licensed⟩⟩
    · obtain ⟨id, hkind, meets⟩ := (Graph.exists_meets_iff written).2 licensed
      exact (mem_given_iff fresh activates (Or.inl rfl)).2 ⟨id, hkind,
        (mem_meetings_host_iff regular tracks fresh activates parted distinct hother id).2 meets⟩
    · obtain ⟨id, hkind, meets⟩ := (Graph.exists_meets_iff written).2 licensed
      exact (mem_given_iff fresh activates (Or.inr rfl)).2 ⟨id, hkind,
        (mem_meetings_announced_iff regular tracks fresh activates distinct hother id).2 meets⟩

end Licensing

end MergeGrammar
