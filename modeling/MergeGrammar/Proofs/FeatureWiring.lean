import Mathlib.Data.List.Induction
import Mathlib.Tactic.Lemma
import MergeGrammar.Graph

/-!
# Wiring of features

In a graph made from entries a word part points to the nodes of its features, and a positive feature
to the nodes that lead to a merge and that it satisfies, to all of them and to no others. Each node
stores what its feature leads to.
-/

namespace MergeGrammar

def MergeKind.sign : MergeKind → Sign
  | merge => .select
  | pairMerge => .adjoin

lemma Feature.mergeKind_eq_some {f : Feature} {kind : MergeKind} :
    f.mergeKind = some kind ↔ f.sign = some kind.sign := by
  unfold mergeKind
  cases hsign : f.sign with
  | none => simp
  | some sign => cases sign <;> cases kind <;> simp [Sign.mergeKind, MergeKind.sign]

lemma Feature.not_isPositive_of_mergeKind {f : Feature} {kind : MergeKind}
    (h : f.mergeKind = some kind) : f.isPositive = false := by
  rw [isPositive, mergeKind_eq_some.1 h]
  rfl

lemma Feature.isPositive_of_satisfies {f g : Feature} (h : f.satisfies g = true) :
    f.isPositive = true := by
  simp only [satisfies, Bool.and_eq_true, and_assoc] at h
  exact h.1

namespace Graph

section Distinct

variable {α : Type} {key : α → String}

lemma distinctBy_concat (items : List α) (item : α) : distinctBy key (items ++ [item]) =
    if (distinctBy key items).any (key · == key item) then distinctBy key items
    else distinctBy key items ++ [item] := by
  rw [distinctBy, distinctBy, List.foldl_append]
  rfl

/-- Only items are kept, and one for each key. -/
lemma distinctBy_spec (key : α → String) (items : List α) : (∀ item ∈ distinctBy key items, item ∈ items) ∧
    ∀ item ∈ items, key item ∈ (distinctBy key items).map key := by
  induction items using List.reverseRecOn with
  | nil => exact ⟨fun _ h => h, fun _ h => absurd h List.not_mem_nil⟩
  | append_singleton items item ih =>
    obtain ⟨kept, covered⟩ := ih
    rw [distinctBy_concat]
    split
    · next hany =>
      refine ⟨fun i hi => List.mem_append_left _ (kept i hi), fun i hi => ?_⟩
      rcases List.mem_append.1 hi with hi | hi
      · exact covered i hi
      · obtain ⟨other, hother, hkey⟩ := List.any_eq_true.1 hany
        rw [List.mem_singleton.1 hi, ← eq_of_beq hkey]
        exact List.mem_map_of_mem hother
    · refine ⟨fun i hi => ?_, fun i hi => ?_⟩
      · rcases List.mem_append.1 hi with hi | hi
        · exact List.mem_append_left _ (kept i hi)
        · exact List.mem_append_right _ hi
      · rw [List.map_append, List.mem_append]
        rcases List.mem_append.1 hi with hi | hi
        · exact Or.inl (covered i hi)
        · exact Or.inr (List.mem_map_of_mem hi)

end Distinct

variable {entries : List Entry}

/-- The features of all parts of some entries. -/
def partFeatures (entries : List Entry) : List Feature :=
  (entries.flatMap Entry.parts).flatMap Part.features

lemma mem_partFeatures {f : Feature} : f ∈ partFeatures entries ↔
    ∃ entry ∈ entries, ∃ part ∈ entry.parts, f ∈ part.features := by
  simp only [partFeatures, List.mem_flatMap]
  constructor
  · rintro ⟨part, ⟨entry, hentry, hpart⟩, hf⟩
    exact ⟨entry, hentry, part, hpart, hf⟩
  · rintro ⟨entry, hentry, part, hpart, hf⟩
    exact ⟨part, ⟨entry, hentry, hpart⟩, hf⟩

/-- The features of the nodes that some entries give rise to. -/
def nodeFeatures (entries : List Entry) : List Feature :=
  distinctBy Feature.text (partFeatures entries)

lemma feature_ofEntries (id : FeatureId) :
    (ofEntries entries).feature id = ((wire (nodeFeatures entries))[id]?).getD default := by
  change (wire (nodeFeatures entries)).toArray.getD id default = _
  rw [Array.getD_eq_getD_getElem?, List.getElem?_toArray]

lemma size_features_ofEntries :
    (ofEntries entries).features.size = (nodeFeatures entries).length := by
  change (wire (nodeFeatures entries)).toArray.size = _
  simp [wire]

lemma feature_eq_of_getElem? {id : FeatureId} {f : Feature}
    (h : (nodeFeatures entries)[id]? = some f) : ((ofEntries entries).feature id).feature = f := by
  rw [feature_ofEntries]
  simp [wire, h]

/-- A node stores what its feature leads to. -/
lemma target_ofEntries (id : FeatureId) : ((ofEntries entries).feature id).target =
    ((ofEntries entries).feature id).feature.mergeKind := by
  rw [feature_ofEntries]
  cases hget : (nodeFeatures entries)[id]? with
  | some f => simp [wire, hget]
  | none =>
    simp only [wire, List.getElem?_map, hget, Option.map_none, Option.getD_none]
    rfl

lemma target_eq_some {id : FeatureId} {kind : MergeKind} :
    ((ofEntries entries).feature id).target = some kind ↔
      ((ofEntries entries).feature id).feature.sign = some kind.sign := by
  rw [target_ofEntries, Feature.mergeKind_eq_some]

/-- A node that leads to a merge is no stand-in for a missing one. -/
lemma getElem?_of_mergeKind {id : FeatureId} {kind : MergeKind}
    (h : ((ofEntries entries).feature id).feature.mergeKind = some kind) :
    (nodeFeatures entries)[id]? = some ((ofEntries entries).feature id).feature := by
  cases hget : (nodeFeatures entries)[id]? with
  | some f => rw [feature_eq_of_getElem? hget]
  | none =>
    rw [feature_ofEntries] at h
    simp only [wire, List.getElem?_map, hget, Option.map_none, Option.getD_none] at h
    cases h

lemma mem_partners {positive id : FeatureId} :
    id ∈ ((ofEntries entries).feature positive).partners ↔
      positive < (ofEntries entries).features.size ∧
      (∃ kind, ((ofEntries entries).feature id).feature.mergeKind = some kind) ∧
      ((ofEntries entries).feature positive).feature.satisfies
        ((ofEntries entries).feature id).feature = true := by
  rw [size_features_ofEntries]
  cases hpositive : (nodeFeatures entries)[positive]? with
  | none =>
    have hge := List.getElem?_eq_none_iff.1 hpositive
    have hnode : (ofEntries entries).feature positive = default := by
      rw [feature_ofEntries]
      simp [wire, hpositive]
    rw [hnode]
    exact iff_of_false List.not_mem_nil fun h => absurd h.1 (Nat.not_lt_of_le hge)
  | some f =>
    obtain ⟨hlt, -⟩ := List.getElem?_eq_some_iff.1 hpositive
    rw [feature_eq_of_getElem? hpositive, feature_ofEntries]
    simp only [wire, List.getElem?_map, hpositive, Option.map_some, Option.getD_some, hlt, true_and,
      List.mem_filterMap, Prod.exists, List.mk_mem_zipIdx_iff_getElem?]
    constructor
    · rintro ⟨other, index, hother, hid⟩
      split at hid
      · next hwired =>
        cases hid
        rw [feature_eq_of_getElem? hother]
        obtain ⟨hkind, hsatisfies⟩ := Bool.and_eq_true_iff.1 hwired
        exact ⟨Option.isSome_iff_exists.1 hkind, hsatisfies⟩
      · cases hid
    · rintro ⟨⟨kind, hkind⟩, hsatisfies⟩
      refine ⟨_, id, getElem?_of_mergeKind hkind, ?_⟩
      rw [if_pos (Bool.and_eq_true_iff.2 ⟨Option.isSome_iff_exists.2 ⟨kind, hkind⟩, hsatisfies⟩)]

lemma satisfies_of_mem_partners {positive id : FeatureId}
    (h : id ∈ ((ofEntries entries).feature positive).partners) :
    ((ofEntries entries).feature positive).feature.satisfies
      ((ofEntries entries).feature id).feature = true :=
  (mem_partners.1 h).2.2

lemma mem_lexicalEntries {categories texts : List String} {first : EntryId}
    {node : LexicalEntry} (h : node ∈ lexicalEntries categories texts first entries) :
    ∃ entry ∈ entries, node.part ∈ entry.parts ∧
      node.features = node.part.features.map fun f => texts.idxOf f.text := by
  induction entries generalizing first with
  | nil => exact absurd h List.not_mem_nil
  | cons entry entries ih =>
    rw [lexicalEntries, List.mem_append] at h
    rcases h with h | h
    · simp only [wordEntries, List.mem_map, Prod.exists, List.mk_mem_zipIdx_iff_getElem?] at h
      obtain ⟨part, index, hpart, rfl⟩ := h
      exact ⟨entry, List.mem_cons_self, List.mem_of_getElem? hpart, rfl⟩
    · obtain ⟨other, hother, hpart⟩ := ih h
      exact ⟨other, List.mem_cons_of_mem _ hother, hpart⟩

/-- A word part of a graph points to the nodes of its features. A number that is not in use stands for
a word part without features. -/
lemma entry_ofEntries (entries : List Entry) (part : EntryId) :
    (ofEntries entries).entry part = default ∨
      ∃ entry ∈ entries, ((ofEntries entries).entry part).part ∈ entry.parts ∧
        ((ofEntries entries).entry part).features =
          ((ofEntries entries).entry part).part.features.map
            fun f => ((nodeFeatures entries).map Feature.text).idxOf f.text := by
  obtain ⟨nodes, hnodes, hentry⟩ : ∃ nodes : List LexicalEntry,
      (∀ node ∈ nodes, ∃ entry ∈ entries, node.part ∈ entry.parts ∧ node.features =
        node.part.features.map fun f => ((nodeFeatures entries).map Feature.text).idxOf f.text) ∧
      (ofEntries entries).entry part = (nodes[part]?).getD default := by
    let categories := distinctBy id ((entries.flatMap Entry.parts).flatMap Part.categories)
    let texts := (nodeFeatures entries).map Feature.text
    refine ⟨lexicalEntries categories texts 0 entries, fun _ hnode => mem_lexicalEntries hnode, ?_⟩
    change (lexicalEntries categories texts 0 entries).toArray.getD part default = _
    rw [Array.getD_eq_getD_getElem?, List.getElem?_toArray]
  rw [hentry]
  cases hget : nodes[part]? with
  | none => exact Or.inl rfl
  | some node => exact Or.inr (hnodes node (List.mem_of_getElem? hget))

/-- The node that a feature of a word part points to carries its text. -/
lemma getElem?_idxOf {f : Feature} (h : f ∈ partFeatures entries) :
    ∃ g ∈ partFeatures entries, g.text = f.text ∧
      (nodeFeatures entries)[((nodeFeatures entries).map Feature.text).idxOf f.text]? = some g := by
  obtain ⟨kept, covered⟩ := distinctBy_spec Feature.text (partFeatures entries)
  have hlt := List.idxOf_lt_length_of_mem (covered f h)
  have htext := List.getElem_idxOf hlt
  rw [List.length_map] at hlt
  rw [List.getElem_map] at htext
  exact ⟨_, kept _ (List.getElem_mem hlt), htext, List.getElem?_eq_getElem hlt⟩

lemma lt_size_of_mem_features {part : EntryId} {id : FeatureId}
    (h : id ∈ ((ofEntries entries).entry part).features) :
    id < (ofEntries entries).features.size := by
  rcases entry_ofEntries entries part with hnone | ⟨entry, hentry, hpart, hfeatures⟩
  · rw [hnone] at h
    exact absurd h List.not_mem_nil
  · rw [hfeatures, List.mem_map] at h
    obtain ⟨f, hf, rfl⟩ := h
    obtain ⟨g, -, -, hget⟩ := getElem?_idxOf (mem_partFeatures.2 ⟨entry, hentry, _, hpart, hf⟩)
    rw [size_features_ofEntries]
    exact (List.getElem?_eq_some_iff.1 hget).1

end Graph

end MergeGrammar
