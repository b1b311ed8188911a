import Mathlib.Data.List.Infix
import Mathlib.Data.List.Nodup
import MergeGrammar.Proofs.TokenExpansion

/-!
# Growth of graphs

The graph of more words begins with the graph of fewer words. The nodes of the word parts and the
categories stay what they are. A feature keeps its target and its partners and is given further
partners, which are new nodes.
-/

namespace MergeGrammar

namespace Graph

/-- A graph is the beginning of a larger one. -/
structure Begins (graph longer : Graph) : Prop where
  entries : graph.entries.toList <+: longer.entries.toList
  categories : graph.categories.toList <+: longer.categories.toList
  features_le : graph.features.size ≤ longer.features.size
  feature_eq : ∀ id < graph.features.size,
    (longer.feature id).feature = (graph.feature id).feature
  target_eq : ∀ id < graph.features.size, (longer.feature id).target = (graph.feature id).target
  partners : ∀ id < graph.features.size, ∃ further,
    (longer.feature id).partners = (graph.feature id).partners ++ further ∧
      ∀ other ∈ further, graph.features.size ≤ other

/-- What the nodes of a graph point to is in it. -/
structure Enclosed (graph : Graph) : Prop where
  features_lt : ∀ entry, ∀ id ∈ (graph.entry entry).features, id < graph.features.size
  categories_lt : ∀ entry, ∀ id ∈ (graph.entry entry).categories, id < graph.categories.size
  partners_lt : ∀ id, ∀ other ∈ (graph.feature id).partners, other < graph.features.size

lemma Begins.entry_eq {graph longer : Graph} (h : graph.Begins longer) {id : EntryId}
    (hid : id < graph.entries.size) : longer.entry id = graph.entry id := by
  have same := List.prefix_iff_getElem?.1 h.entries id hid
  rw [entry, entry, Array.getD_eq_getD_getElem?, Array.getD_eq_getD_getElem?,
    Array.getElem?_eq_getElem hid, ← Array.getElem?_toList, same]
  rfl

lemma Begins.entries_le {graph longer : Graph} (h : graph.Begins longer) :
    graph.entries.size ≤ longer.entries.size := h.entries.length_le

lemma Begins.categories_le {graph longer : Graph} (h : graph.Begins longer) :
    graph.categories.size ≤ longer.categories.size := h.categories.length_le

lemma Begins.category_eq {graph longer : Graph} (h : graph.Begins longer) {id : CategoryId}
    (hid : id < graph.categories.size) : longer.category id = graph.category id := by
  have same := List.prefix_iff_getElem?.1 h.categories id hid
  rw [category, category, Array.getD_eq_getD_getElem?, Array.getD_eq_getD_getElem?,
    Array.getElem?_eq_getElem hid, ← Array.getElem?_toList, same]
  rfl

lemma Begins.lookup_eq {graph longer : Graph} (h : graph.Begins longer) {word : String}
    {entry : EntryId} (found : graph.lookup word = some entry) :
    longer.lookup word = some entry := by
  have same : ∀ g : Graph, g.lookup word =
      g.entries.toList.findIdx? fun entry => entry.word == word && entry.isFirstPart := by
    intro g
    rw [lookup, ← List.findIdx?_toArray]
  rw [same] at found ⊢
  exact h.entries.findIdx?_eq_some found

/-! ### More words -/

variable {entries further : List Entry}

lemma prefix_distinctBy {α : Type} (key : α → String) (items more : List α) :
    distinctBy key items <+: distinctBy key (items ++ more) := by
  induction more using List.reverseRecOn with
  | nil =>
    rw [List.append_nil]
  | append_singleton more item ih =>
    rw [← List.append_assoc, distinctBy_concat]
    split
    · exact ih
    · exact ih.trans (List.prefix_append _ _)

lemma prefix_nodeFeatures (entries further : List Entry) :
    nodeFeatures entries <+: nodeFeatures (entries ++ further) := by
  rw [nodeFeatures, nodeFeatures, partFeatures, partFeatures, List.flatMap_append,
    List.flatMap_append]
  exact prefix_distinctBy _ _ _

lemma prefix_nodeCategories (entries further : List Entry) :
    nodeCategories entries <+: nodeCategories (entries ++ further) := by
  rw [nodeCategories, nodeCategories, List.flatMap_append, List.flatMap_append]
  exact prefix_distinctBy _ _ _

lemma mem_nodeCategories {entry : Entry} {part : Part} {category : String}
    (hentry : entry ∈ entries) (hpart : part ∈ entry.parts) (h : category ∈ part.categories) :
    category ∈ nodeCategories entries := by
  have mem_all : category ∈ (entries.flatMap Entry.parts).flatMap Part.categories :=
    List.mem_flatMap.2 ⟨part, List.mem_flatMap.2 ⟨entry, hentry, hpart⟩, h⟩
  have covered := (distinctBy_spec id _).2 category mem_all
  rwa [List.map_id] at covered

lemma mem_nodeTexts {f : Feature} (h : f ∈ partFeatures entries) :
    f.text ∈ (nodeFeatures entries).map Feature.text :=
  (distinctBy_spec Feature.text (partFeatures entries)).2 f h

/-- Names behind those in use do not change the nodes of a word. -/
lemma wordEntries_congr {categories categories' texts texts' : List String} {entry : Entry}
    (first : EntryId) (hcategories : categories <+: categories') (htexts : texts <+: texts')
    (mem_categories : ∀ part ∈ entry.parts, ∀ c ∈ part.categories, c ∈ categories)
    (mem_texts : ∀ part ∈ entry.parts, ∀ f ∈ part.features, f.text ∈ texts) :
    wordEntries categories' texts' first entry = wordEntries categories texts first entry := by
  obtain ⟨moreCategories, rfl⟩ := hcategories
  obtain ⟨moreTexts, rfl⟩ := htexts
  rw [wordEntries, wordEntries]
  refine List.map_congr_left ?_
  rintro ⟨part, index⟩ hpart
  obtain ⟨-, hget⟩ := List.mk_mem_zipIdx_iff_le_and_getElem?_sub.1 hpart
  have hmem := List.mem_of_getElem? hget
  have same_categories : part.categories.map ((categories ++ moreCategories).idxOf ·) =
      part.categories.map (categories.idxOf ·) :=
    List.map_congr_left fun c hc => List.idxOf_append_of_mem (mem_categories part hmem c hc)
  have same_features : (part.features.map fun f => (texts ++ moreTexts).idxOf f.text) =
      part.features.map fun f => texts.idxOf f.text :=
    List.map_congr_left fun f hf => List.idxOf_append_of_mem (mem_texts part hmem f hf)
  simp only [same_categories, same_features]

lemma prefix_lexicalEntries {categories categories' texts texts' : List String}
    (first : EntryId) (hcategories : categories <+: categories') (htexts : texts <+: texts')
    (mem_categories : ∀ entry ∈ entries, ∀ part ∈ entry.parts, ∀ c ∈ part.categories,
      c ∈ categories)
    (mem_texts : ∀ entry ∈ entries, ∀ part ∈ entry.parts, ∀ f ∈ part.features, f.text ∈ texts) :
    lexicalEntries categories texts first entries <+:
      lexicalEntries categories' texts' first (entries ++ further) := by
  induction entries generalizing first with
  | nil => exact List.nil_prefix
  | cons entry entries ih =>
    rw [List.cons_append, lexicalEntries, lexicalEntries,
      wordEntries_congr first hcategories htexts (mem_categories entry List.mem_cons_self)
        (mem_texts entry List.mem_cons_self)]
    exact List.prefix_append_right_inj _ |>.2
      (ih _ (fun e he => mem_categories e (List.mem_cons_of_mem _ he))
        (fun e he => mem_texts e (List.mem_cons_of_mem _ he)))

lemma getElem?_nodeFeatures {id : FeatureId} (hid : id < (ofEntries entries).features.size) :
    (nodeFeatures entries)[id]? = some ((ofEntries entries).feature id).feature := by
  rw [size_features_ofEntries] at hid
  rw [feature_eq_of_getElem? (List.getElem?_eq_getElem hid), List.getElem?_eq_getElem hid]

/-- The partners of a feature, by the features of the nodes. -/
lemma partners_ofEntries {id : FeatureId} (hid : id < (ofEntries entries).features.size) :
    ((ofEntries entries).feature id).partners =
      (nodeFeatures entries).zipIdx.filterMap fun (other, index) =>
        if other.mergeKind.isSome && ((ofEntries entries).feature id).feature.satisfies other then
          some index
        else none := by
  have hget := getElem?_nodeFeatures hid
  generalize ((ofEntries entries).feature id).feature = f at hget
  rw [feature_ofEntries]
  simp [wire, hget]

lemma begins_append (entries further : List Entry) :
    (ofEntries entries).Begins (ofEntries (entries ++ further)) := by
  obtain ⟨later, hlater⟩ := prefix_nodeFeatures entries further
  have features_le :
      (ofEntries entries).features.size ≤ (ofEntries (entries ++ further)).features.size := by
    rw [size_features_ofEntries, size_features_ofEntries, ← hlater, List.length_append]
    exact Nat.le_add_right _ _
  have feature_eq : ∀ id < (ofEntries entries).features.size,
      ((ofEntries (entries ++ further)).feature id).feature =
        ((ofEntries entries).feature id).feature := by
    intro id hid
    have hget := getElem?_nodeFeatures hid
    refine feature_eq_of_getElem? ?_
    rw [← hlater, List.getElem?_append_left (List.getElem?_eq_some_iff.1 hget).1, hget]
  refine ⟨?_, prefix_nodeCategories entries further, features_le, feature_eq, fun id hid => ?_,
    fun id hid => ?_⟩
  · refine prefix_lexicalEntries 0 (prefix_nodeCategories entries further)
      ((prefix_nodeFeatures entries further).map _) (fun entry hentry part hpart c hc =>
        mem_nodeCategories hentry hpart hc) (fun entry hentry part hpart f hf =>
        mem_nodeTexts (mem_partFeatures.2 ⟨entry, hentry, part, hpart, hf⟩))
  · rw [target_ofEntries, target_ofEntries, feature_eq id hid]
  · rw [partners_ofEntries hid, partners_ofEntries (hid.trans_le features_le), feature_eq id hid,
      ← hlater, List.zipIdx_append, List.filterMap_append, Nat.zero_add]
    refine ⟨_, rfl, fun other hother => ?_⟩
    obtain ⟨⟨f, index⟩, hmem, hsome⟩ := List.mem_filterMap.1 hother
    obtain ⟨hle, -⟩ := List.mk_mem_zipIdx_iff_le_and_getElem?_sub.1 hmem
    dsimp only at hsome
    split at hsome
    · cases hsome
      rwa [size_features_ofEntries]
    · cases hsome

lemma enclosed_ofEntries (entries : List Entry) : (ofEntries entries).Enclosed where
  features_lt entry id hid := lt_size_of_mem_features hid
  categories_lt id category hcategory := by
    by_cases hid : id < (ofEntries entries).entries.size
    · obtain ⟨entry, hentry, before, -, hnode, -⟩ :=
        getElem?_lexicalEntries (getElem?_partNodes hid)
      rw [getElem?_wordEntries, Option.map_eq_some_iff] at hnode
      obtain ⟨part, hpart, heq⟩ := hnode
      rw [← heq] at hcategory
      obtain ⟨c, hc, rfl⟩ := List.mem_map.1 hcategory
      exact List.idxOf_lt_length_of_mem
        (mem_nodeCategories hentry (List.mem_of_getElem? hpart) hc)
    · rw [entry, Array.getD_eq_getD_getElem?,
        Array.getElem?_eq_none (Nat.le_of_not_lt hid)] at hcategory
      cases hcategory
  partners_lt id other hother := by
    obtain ⟨-, ⟨kind, hkind⟩, -⟩ := mem_partners.1 hother
    rw [size_features_ofEntries]
    exact (List.getElem?_eq_some_iff.1 (getElem?_of_mergeKind hkind)).1

/-- A word with a part has a node for its first part. -/
lemma exists_lookup {entry : Entry} (hentry : entry ∈ entries) (hparts : entry.parts ≠ []) :
    ∃ id, (ofEntries entries).lookup entry.word = some id := by
  have hnode : ∃ node ∈ partNodes entries, node.word = entry.word ∧ node.isFirstPart = true := by
    rw [partNodes]
    generalize nodeCategories entries = categories, (nodeFeatures entries).map Feature.text = texts,
      0 = first
    induction entries generalizing first with
    | nil => exact absurd hentry List.not_mem_nil
    | cons other entries ih =>
      rw [lexicalEntries]
      rcases List.mem_cons.1 hentry with rfl | hentry
      · obtain ⟨part, hpart⟩ : ∃ part, entry.parts[0]? = some part :=
          ⟨_, List.getElem?_eq_getElem (List.length_pos_iff.2 hparts)⟩
        have hget := @getElem?_wordEntries categories texts first entry 0
        rw [hpart] at hget
        exact ⟨_, List.mem_append_left _ (List.mem_of_getElem? hget), rfl, rfl⟩
      · obtain ⟨node, hnode, hword⟩ := ih hentry (first + other.parts.length)
        exact ⟨node, List.mem_append_right _ hnode, hword⟩
  obtain ⟨node, hmem, hword, hfirst⟩ := hnode
  refine Option.isSome_iff_exists.1 ?_
  rw [lookup, entries_ofEntries, List.findIdx?_toArray, List.findIdx?_isSome, List.any_eq_true]
  exact ⟨node, hmem, Bool.and_eq_true_iff.2 ⟨beq_iff_eq.2 hword, hfirst⟩⟩

end Graph

/-! ### The words of a lexicon -/

/-- A list of entries has no fault if no entry has one and no word stands twice. -/
lemma firstFault_eq_none {seen : List String} {entries : List Entry} :
    firstFault seen entries = none ↔ (∀ entry ∈ entries, entry.fault = none) ∧
      (entries.map Entry.word).Nodup ∧ ∀ entry ∈ entries, entry.word ∉ seen := by
  induction entries generalizing seen with
  | nil => simp [firstFault]
  | cons entry entries ih =>
    rw [firstFault]
    cases hfault : entry.fault with
    | some fault => simp [hfault]
    | none =>
      dsimp only
      split
      · next hseen => simp [hseen]
      · next hseen =>
        rw [ih]
        simp only [List.mem_cons, not_or, List.map_cons, List.nodup_cons, List.mem_map,
          forall_eq_or_imp]
        grind

namespace Lexicon

variable {lexicon : Lexicon} {entry : Entry}

lemma nodup_words (lexicon : Lexicon) : (lexicon.entries.map Entry.word).Nodup :=
  (firstFault_eq_none.1 lexicon.faultless).2.1

lemma parts_ne_nil (h : entry ∈ lexicon.entries) : entry.parts ≠ [] := by
  have faultless := (firstFault_eq_none.1 lexicon.faultless).1 entry h
  rintro hnil
  rw [Entry.fault, hnil] at faultless
  cases faultless

lemma get?_eq_some (h : entry ∈ lexicon.entries) : lexicon.get? entry.word = some entry := by
  obtain ⟨found, hfound⟩ : ∃ found, lexicon.get? entry.word = some found := by
    refine Option.isSome_iff_exists.1 ?_
    rw [get?, List.find?_isSome]
    exact ⟨entry, h, beq_self_eq_true _⟩
  have named := List.find?_some hfound
  rw [hfound, List.inj_on_of_nodup_map lexicon.nodup_words (List.mem_of_find?_eq_some hfound) h
    (eq_of_beq named)]

lemma get?_eq_some_iff {word : String} :
    lexicon.get? word = some entry ↔ entry ∈ lexicon.entries ∧ entry.word = word := by
  constructor
  · intro h
    have named := List.find?_some h
    exact ⟨List.mem_of_find?_eq_some h, eq_of_beq named⟩
  · rintro ⟨hmem, rfl⟩
    exact get?_eq_some hmem

end Lexicon

namespace Graph

/-- The graph of some words of a lexicon finds each of them. -/
lemma lookup_of_word {lexicon : Lexicon} {entries : List Entry}
    (subset : entries ⊆ lexicon.entries) {token : String}
    (known : ∃ entry ∈ entries, entry.word = token) :
    ∃ id, (ofEntries entries).lookup token = some id := by
  obtain ⟨entry, hentry, rfl⟩ := known
  exact exists_lookup hentry (Lexicon.parts_ne_nil (subset hentry))

/-! ### The words of a sentence -/

section Choosing

variable {lexicon : Lexicon} {chosen : List Entry}

lemma chooseEntries_append (tokens more : List String) :
    chooseEntries lexicon chosen (tokens ++ more) =
      (chooseEntries lexicon chosen tokens).bind fun entries =>
        chooseEntries lexicon entries more := by
  induction tokens generalizing chosen with
  | nil => rfl
  | cons token tokens ih =>
    rw [List.cons_append, chooseEntries, chooseEntries]
    split
    · exact ih
    · split
      · rfl
      · exact ih

/-- The words of all tokens are chosen, behind those that have been. -/
lemma chooseEntries_ok (chosen : List Entry) {tokens : List String}
    (known : ∀ token ∈ tokens, ∃ entry ∈ lexicon.entries, entry.word = token) :
    ∃ more, chooseEntries lexicon chosen tokens = .ok (chosen ++ more) ∧
      more ⊆ lexicon.entries ∧ ∀ token ∈ tokens, ∃ entry ∈ chosen ++ more, entry.word = token := by
  induction tokens generalizing chosen with
  | nil => exact ⟨[], by rw [chooseEntries, List.append_nil], List.nil_subset _, by simp⟩
  | cons token tokens ih =>
    have known' : ∀ t ∈ tokens, ∃ entry ∈ lexicon.entries, entry.word = t :=
      fun t ht => known t (List.mem_cons_of_mem _ ht)
    rw [chooseEntries]
    split
    · next hany =>
      obtain ⟨entry, hentry, hword⟩ := List.any_eq_true.1 hany
      obtain ⟨more, hchoose, hsubset, hcover⟩ := ih chosen known'
      refine ⟨more, hchoose, hsubset, fun t ht => ?_⟩
      rcases List.mem_cons.1 ht with rfl | ht
      · exact ⟨entry, List.mem_append_left _ hentry, eq_of_beq hword⟩
      · exact hcover t ht
    · obtain ⟨entry, hentry, rfl⟩ := known token List.mem_cons_self
      obtain ⟨more, hchoose, hsubset, hcover⟩ := ih (chosen ++ [entry]) known'
      rw [Lexicon.get?_eq_some hentry]
      refine ⟨entry :: more, ?_, List.cons_subset.2 ⟨hentry, hsubset⟩, fun t ht => ?_⟩
      · rw [List.append_cons]
        exact hchoose
      · rw [List.append_cons]
        rcases List.mem_cons.1 ht with rfl | ht
        · exact ⟨entry, by simp, rfl⟩
        · exact hcover t ht

end Choosing

end Graph

namespace Session

lemma start_of_lookupAll {graph : Graph} {tokens : List String} {ids : List EntryId}
    (nonempty : tokens ≠ []) (found : lookupAll graph tokens = .ok ids) (options : Options) :
    Session.start graph tokens options = .ok (ofEntries graph options ids) := by
  rw [Session.start, if_neg (by rwa [List.isEmpty_iff]), found]
  rfl

/-- Every word of a graph is found, and a larger graph finds it at the same place. -/
lemma lookupAll_begins {graph longer : Graph} (begins : graph.Begins longer) {tokens more : List String}
    (found : ∀ token ∈ tokens, ∃ id, graph.lookup token = some id)
    (found' : ∀ token ∈ more, ∃ id, longer.lookup token = some id) :
    ∃ ids further, lookupAll graph tokens = .ok ids ∧
      lookupAll longer (tokens ++ more) = .ok (ids ++ further) := by
  induction tokens with
  | nil =>
    induction more with
    | nil => exact ⟨[], [], rfl, rfl⟩
    | cons token more ih =>
      obtain ⟨id, hid⟩ := found' token List.mem_cons_self
      obtain ⟨ids, further, hids, hfurther⟩ := ih fun t ht => found' t (List.mem_cons_of_mem _ ht)
      cases hids
      refine ⟨[], id :: further, rfl, ?_⟩
      rw [List.nil_append] at hfurther ⊢
      rw [lookupAll, hid]
      simp only [hfurther]
      rfl
  | cons token tokens ih =>
    obtain ⟨id, hid⟩ := found token List.mem_cons_self
    obtain ⟨ids, further, hids, hfurther⟩ := ih fun t ht => found t (List.mem_cons_of_mem _ ht)
    refine ⟨id :: ids, further, ?_, ?_⟩
    · rw [lookupAll, hid]
      simp only [hids]
      rfl
    · rw [List.cons_append, lookupAll, begins.lookup_eq hid]
      simp only [hfurther]
      rfl

end Session

end MergeGrammar
