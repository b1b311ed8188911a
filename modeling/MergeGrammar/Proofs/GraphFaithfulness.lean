import MergeGrammar.Proofs.LexiconGrammar
import MergeGrammar.Proofs.PartLicences
import MergeGrammar.Proofs.WordTwins

/-!
# Faithfulness of feature graphs

The graph of a lexicon, or of the words of a sentence, says neither more nor less than the entries
of these words: their parts in order, the features of each part, and which features satisfy which.
-/

namespace MergeGrammar

/-- Two signs lead to a merge. -/
lemma Feature.exists_mergeKind_iff {f : Feature} :
    (∃ kind, f.mergeKind = some kind) ↔ f.sign = some .select ∨ f.sign = some .adjoin := by
  constructor
  · rintro ⟨kind, hkind⟩
    cases kind with
    | merge => exact Or.inl (mergeKind_eq_some.1 hkind)
    | pairMerge => exact Or.inr (mergeKind_eq_some.1 hkind)
  · rintro (hsign | hsign)
    · exact ⟨.merge, mergeKind_eq_some.2 hsign⟩
    · exact ⟨.pairMerge, mergeKind_eq_some.2 hsign⟩

lemma LexicalEntry.mem_flags {node : LexicalEntry} {flag : Flag} :
    flag ∈ node.flags ↔ node.hasFlag flag = true := by
  have mem_all : flag ∈ Flag.all := by cases flag <;> decide
  rw [flags, List.mem_filter, and_iff_right mem_all]

namespace Graph

/-! ### The chosen words -/

lemma nodup_map_concat {α : Type} {key : α → String} {items : List α} {item : α}
    (distinct : (items.map key).Nodup) (fresh : ¬ items.any (key · == key item) = true) :
    ((items ++ [item]).map key).Nodup := by
  rw [List.map_append, List.map_singleton, List.nodup_append_comm, List.singleton_append,
    List.nodup_cons]
  refine ⟨fun hkey => fresh ?_, distinct⟩
  obtain ⟨other, hother, hsame⟩ := List.mem_map.1 hkey
  exact List.any_eq_true.2 ⟨other, hother, beq_iff_eq.2 hsame⟩

/-- The entries are those of some words in a lexicon, one for each word. -/
structure Selects (lexicon : Lexicon) (words : List String) (entries : List Entry) : Prop where
  subset : entries ⊆ lexicon.entries
  distinct : (entries.map Entry.word).Nodup
  mem_words : ∀ word, word ∈ entries.map Entry.word ↔ word ∈ words

lemma selects_all (lexicon : Lexicon) :
    Selects lexicon (lexicon.entries.map Entry.word) lexicon.entries where
  subset := List.Subset.refl _
  distinct := lexicon.nodup_words
  mem_words _ := Iff.rfl

section Choosing

variable {lexicon : Lexicon} {words tokens : List String} {chosen entries : List Entry}

/-- A word that has been chosen is not chosen again. -/
lemma Selects.repeated (h : Selects lexicon words chosen) {token : String}
    (hany : chosen.any (·.word == token) = true) : Selects lexicon (words ++ [token]) chosen where
  subset := h.subset
  distinct := h.distinct
  mem_words word := by
    obtain ⟨entry, hentry, hword⟩ := List.any_eq_true.1 hany
    have hmem : token ∈ words := (h.mem_words _).1 (eq_of_beq hword ▸ List.mem_map_of_mem hentry)
    rw [h.mem_words, List.mem_append, List.mem_singleton]
    constructor
    · exact Or.inl
    · rintro (hwords | rfl)
      · exact hwords
      · exact hmem

lemma Selects.further (h : Selects lexicon words chosen) {token : String} {entry : Entry}
    (hany : ¬ chosen.any (·.word == token) = true) (hentry : lexicon.get? token = some entry) :
    Selects lexicon (words ++ [token]) (chosen ++ [entry]) := by
  obtain ⟨hmem, rfl⟩ := Lexicon.get?_eq_some_iff.1 hentry
  constructor
  · exact List.append_subset.2 ⟨h.subset, List.cons_subset.2 ⟨hmem, List.nil_subset _⟩⟩
  · exact nodup_map_concat h.distinct hany
  · intro word
    rw [List.map_append, List.mem_append, List.mem_append, h.mem_words, List.map_singleton]

lemma selects_of_chooseEntries (found : chooseEntries lexicon chosen tokens = .ok entries)
    (h : Selects lexicon words chosen) : Selects lexicon (words ++ tokens) entries := by
  induction tokens generalizing words chosen with
  | nil =>
    cases found
    rwa [List.append_nil]
  | cons token tokens ih =>
    rw [chooseEntries] at found
    rw [List.append_cons]
    by_cases hany : chosen.any (·.word == token) = true
    · rw [if_pos hany] at found
      exact ih found (h.repeated hany)
    · rw [if_neg hany] at found
      cases hentry : lexicon.get? token with
      | none =>
        rw [hentry] at found
        cases found
      | some entry =>
        rw [hentry] at found
        exact ih found (h.further hany hentry)

lemma selects_of_forSentence {graph : Graph} (found : forSentence lexicon tokens = .ok graph) :
    ∃ entries, graph = ofEntries entries ∧ Selects lexicon tokens entries := by
  have none_chosen : Selects lexicon [] [] :=
    ⟨List.nil_subset _, List.nodup_nil, fun _ => Iff.rfl⟩
  obtain ⟨entries, chosen, rfl⟩ := exists_of_forSentence found
  exact ⟨entries, rfl, selects_of_chooseEntries chosen none_chosen⟩

end Choosing

/-! ### The parts of a word -/

/-- A part of an entry has a node in the place behind the first part of its word. -/
structure Presents (graph : Graph) (first : EntryId) (entry : Entry) (i : Nat) (part : Part) :
    Prop where
  lt_size : first + i < graph.entries.size
  word_eq : (graph.entry (first + i)).word = entry.word
  siblings_eq : (graph.entry (first + i)).siblings = List.range' first entry.parts.length
  index_eq : (graph.entry (first + i)).index = i
  firstPart_iff : .firstPart ∈ (graph.entry (first + i)).flags ↔ i = 0
  lastPart_iff : .lastPart ∈ (graph.entry (first + i)).flags ↔ i + 1 = entry.parts.length
  nextPart?_eq : (graph.entry (first + i)).nextPart? =
    if .lastPart ∈ (graph.entry (first + i)).flags then none else some (first + (i + 1))
  features_lt : ∀ id ∈ (graph.entry (first + i)).features, id < graph.features.size
  /-- What the part asks for comes first. -/
  features_eq : ((graph.entry (first + i)).features.map fun id => (graph.feature id).feature) =
    part.negative ++ part.positive

variable {entries : List Entry}

lemma Holds.presents (written : Written entries) {first : EntryId} {entry : Entry}
    (holds : (ofEntries entries).Holds first entry) {i : Nat} {part : Part}
    (hpart : entry.parts[i]? = some part) : (ofEntries entries).Presents first entry i part := by
  obtain ⟨categories, texts, nodes⟩ := holds
  obtain ⟨lt_size, hnode⟩ := nodes i part hpart
  have hlt : i < entry.parts.length := (List.getElem?_eq_some_iff.1 hpart).1
  have hlength : (List.range' first entry.parts.length).length = entry.parts.length :=
    List.length_range'
  have firstPart_iff : .firstPart ∈ ((ofEntries entries).entry (first + i)).flags ↔ i = 0 := by
    rw [hnode, partNode, LexicalEntry.mem_flags, LexicalEntry.hasFlag, LexicalEntry.isFirstPart,
      beq_iff_eq]
  have lastPart_iff : .lastPart ∈ ((ofEntries entries).entry (first + i)).flags ↔
      i + 1 = entry.parts.length := by
    rw [hnode, partNode, LexicalEntry.mem_flags, LexicalEntry.hasFlag, LexicalEntry.isLastPart,
      beq_iff_eq, hlength]
  refine ⟨lt_size, ?_, ?_, ?_, firstPart_iff, lastPart_iff, ?_, ?_, ?_⟩
  · rw [hnode, partNode]
  · rw [hnode, partNode]
  · rw [hnode, partNode]
  · simp only [lastPart_iff]
    rw [hnode, partNode, LexicalEntry.nextPart?]
    dsimp only
    split_ifs with hlast
    · rw [List.getElem?_eq_none (by omega)]
    · rw [List.getElem?_range' (by omega), Nat.one_mul]
  · exact fun id hid => lt_size_of_mem_features hid
  · have hsame : ((ofEntries entries).entry (first + i)).part = part := by
      rw [hnode, partNode]
    have hfeature : ∀ f ∈ part.features,
        ((ofEntries entries).feature (number entries f)).feature = f := by
      rw [← hsame]
      exact fun f hf => feature_number written hf
    rw [features_eq_map, List.map_map, hsame]
    exact (List.map_congr_left hfeature).trans (List.map_id _)

/-! ### The nodes of the features -/

lemma nodup_distinctBy {α : Type} (key : α → String) (items : List α) :
    ((distinctBy key items).map key).Nodup := by
  induction items using List.reverseRecOn with
  | nil => exact List.nodup_nil
  | append_singleton items item ih =>
    rw [distinctBy_concat]
    split
    · exact ih
    · next fresh => exact nodup_map_concat ih fresh

lemma text_injective {id other : FeatureId} (hid : id < (ofEntries entries).features.size)
    (hother : other < (ofEntries entries).features.size)
    (htext : ((ofEntries entries).feature id).text = ((ofEntries entries).feature other).text) :
    id = other := by
  have distinct := nodup_distinctBy Feature.text (partFeatures entries)
  have text_at : ∀ {id : FeatureId}, id < (ofEntries entries).features.size →
      ((nodeFeatures entries).map Feature.text)[id]? =
        some ((ofEntries entries).feature id).text := by
    intro id hid
    rw [List.getElem?_map, getElem?_nodeFeatures hid, Option.map_some, FeatureNode.text]
  apply (List.getElem?_inj ?_ distinct).1
  · exact (text_at hid).trans (htext ▸ (text_at hother).symm)
  · rwa [List.length_map, ← nodeFeatures, ← size_features_ofEntries]

lemma pairwise_partners {id : FeatureId} (hid : id < (ofEntries entries).features.size) :
    ((ofEntries entries).feature id).partners.Pairwise (· < ·) := by
  have ascending : (nodeFeatures entries).zipIdx.Pairwise (·.2 < ·.2) := by
    apply List.pairwise_map.1
    rw [List.zipIdx_map_snd]
    exact List.pairwise_lt_range'
  rw [partners_ofEntries hid]
  apply ascending.filterMap
  rintro ⟨f, i⟩ ⟨g, j⟩ hlt _ hi _ hj
  dsimp only at hi hj
  split_ifs at hi hj
  cases hi
  cases hj
  exact hlt

/-! ### The graph as a whole -/

/-- A graph says what a lexicon says of some words. -/
structure Faithful (lexicon : Lexicon) (words : List String) (graph : Graph) : Prop where
  lookup_iff : ∀ word, (∃ first, graph.lookup word = some first) ↔ word ∈ words
  presents : ∀ word first, graph.lookup word = some first →
    ∃ entry, lexicon.get? word = some entry ∧
      ∀ i part, entry.parts[i]? = some part → graph.Presents first entry i part
  /-- There are no other nodes than those of the parts. -/
  covered : ∀ id < graph.entries.size, ∃ word entry first i,
    lexicon.get? word = some entry ∧ graph.lookup word = some first ∧
      i < entry.parts.length ∧ id = first + i
  /-- Every feature is one of some part. -/
  carried : ∀ id < graph.features.size, ∃ entry < graph.entries.size,
    id ∈ (graph.entry entry).features
  text_injective : ∀ id < graph.features.size, ∀ other < graph.features.size,
    (graph.feature id).text = (graph.feature other).text → id = other
  target_merge_iff : ∀ id < graph.features.size, (graph.feature id).target = some .merge ↔
    (graph.feature id).feature.sign = some .select
  target_pairMerge_iff : ∀ id < graph.features.size, (graph.feature id).target = some .pairMerge ↔
    (graph.feature id).feature.sign = some .adjoin
  target_eq_none_iff : ∀ id < graph.features.size, (graph.feature id).target = none ↔
    ¬ ((graph.feature id).feature.sign = some .select ∨
      (graph.feature id).feature.sign = some .adjoin)
  partners_ascending : ∀ id < graph.features.size, (graph.feature id).partners.Pairwise (· < ·)
  mem_partners : ∀ id < graph.features.size, (graph.feature id).feature.isPositive = true →
    ∀ other, other ∈ (graph.feature id).partners ↔ other < graph.features.size ∧
      ((graph.feature other).feature.sign = some .select ∨
        (graph.feature other).feature.sign = some .adjoin) ∧
      (graph.feature id).feature.satisfies (graph.feature other).feature = true
  partners_eq_nil : ∀ id < graph.features.size, (graph.feature id).feature.isPositive = false →
    (graph.feature id).partners = []

section Selected

variable {lexicon : Lexicon} {words : List String} (selects : Selects lexicon words entries)
include selects

lemma Selects.exists_lookup_iff (word : String) :
    (∃ first, (ofEntries entries).lookup word = some first) ↔ word ∈ words := by
  rw [← selects.mem_words, List.mem_map]
  constructor
  · rintro ⟨first, found⟩
    obtain ⟨entry, hentry, hword, -⟩ := holds_of_lookup found
    exact ⟨entry, hentry, hword⟩
  · exact fun known => lookup_of_word selects.subset known

lemma Selects.exists_presents (written : Written entries) {word : String} {first : EntryId}
    (found : (ofEntries entries).lookup word = some first) :
    ∃ entry, lexicon.get? word = some entry ∧ ∀ i part, entry.parts[i]? = some part →
      (ofEntries entries).Presents first entry i part := by
  obtain ⟨entry, hentry, hword, -, -, holds⟩ := holds_of_lookup found
  exact ⟨entry, Lexicon.get?_eq_some_iff.2 ⟨selects.subset hentry, hword⟩,
    fun i part hpart => holds.presents written hpart⟩

/-- A feature stands at the node of a part that it was taken from. -/
lemma Selects.exists_carrier (written : Written entries) {id : FeatureId}
    (hid : id < (ofEntries entries).features.size) :
    ∃ entry < (ofEntries entries).entries.size,
      id ∈ ((ofEntries entries).entry entry).features := by
  have hmem := List.mem_of_getElem? (getElem?_nodeFeatures hid)
  obtain ⟨entry, hentry, part, hpart, hf⟩ :=
    mem_partFeatures.1 ((distinctBy_spec Feature.text _).1 _ hmem)
  obtain ⟨i, hpart⟩ := List.mem_iff_getElem?.1 hpart
  obtain ⟨first, -, holds⟩ := exists_lookup_holds selects.distinct hentry
    (Lexicon.parts_ne_nil (selects.subset hentry))
  have presents := holds.presents written hpart
  rw [Part.features, ← presents.features_eq, List.mem_map] at hf
  obtain ⟨carried, hcarried, hfeature⟩ := hf
  have htext := congrArg Feature.text hfeature
  obtain rfl := text_injective (presents.features_lt _ hcarried) hid htext
  exact ⟨_, presents.lt_size, hcarried⟩

lemma Selects.exists_place {id : EntryId} (hid : id < (ofEntries entries).entries.size) :
    ∃ word entry first i, lexicon.get? word = some entry ∧
      (ofEntries entries).lookup word = some first ∧ i < entry.parts.length ∧
        id = first + i := by
  obtain ⟨entry, hentry, first, i, part, holds, hpart, rfl⟩ := exists_holds hid
  obtain ⟨first', found, holds'⟩ := exists_lookup_holds selects.distinct hentry
    (Lexicon.parts_ne_nil (selects.subset hentry))
  -- A word has no second place, since no other node has the same word and the same index.
  have twins : (ofEntries entries).Twins (ofEntries entries) (first + i) (first' + i) :=
    .of holds holds' hpart
  have same : (ofEntries entries).Twins (ofEntries entries) (first + i) (first + i) :=
    .of holds holds hpart
  refine ⟨_, _, first', i, Lexicon.get?_eq_some (selects.subset hentry), found,
    (List.getElem?_eq_some_iff.1 hpart).1, ?_⟩
  rw [← same.counterpart_eq selects.distinct, twins.counterpart_eq selects.distinct]

lemma Selects.faithful (written : Written lexicon.entries) :
    (ofEntries entries).Faithful lexicon words where
  lookup_iff := selects.exists_lookup_iff
  presents word first found :=
    selects.exists_presents (fun entry hentry => written entry (selects.subset hentry)) found
  covered id hid := selects.exists_place hid
  carried id hid := selects.exists_carrier
    (fun entry hentry => written entry (selects.subset hentry)) hid
  text_injective id hid other hother := text_injective hid hother
  target_merge_iff id _ := target_eq_some
  target_pairMerge_iff id _ := target_eq_some
  target_eq_none_iff id _ := by
    rw [target_ofEntries, ← Feature.exists_mergeKind_iff, Option.eq_none_iff_forall_ne_some,
      not_exists]
  partners_ascending id hid := pairwise_partners hid
  mem_partners id hid _ other := by
    rw [mem_partners, Feature.exists_mergeKind_iff]
    constructor
    · rintro ⟨-, hsign, hsatisfies⟩
      have hother := mem_partners.2 ⟨hid, Feature.exists_mergeKind_iff.2 hsign, hsatisfies⟩
      exact ⟨(enclosed_ofEntries entries).partners_lt id other hother, hsign, hsatisfies⟩
    · rintro ⟨-, hsign, hsatisfies⟩
      exact ⟨hid, hsign, hsatisfies⟩
  partners_eq_nil id hid hnegative := by
    apply List.eq_nil_iff_forall_not_mem.2
    intro other hother
    have hpositive := Feature.isPositive_of_satisfies (satisfies_of_mem_partners hother)
    rw [hnegative] at hpositive
    cases hpositive

end Selected

/-- The graph of a lexicon that was read and the graph of a sentence with it are faithful to it. -/
theorem faithful_of_parse (text : String) (lexicon : Lexicon)
    (parsed : Lexicon.parse text = .ok lexicon) :
    (build lexicon).Faithful lexicon (lexicon.entries.map Entry.word) ∧
    ∀ tokens graph, forSentence lexicon tokens = .ok graph → graph.Faithful lexicon tokens := by
  have written := Lexicon.written_of_parse parsed
  constructor
  · exact (selects_all lexicon).faithful written
  · intro tokens graph found
    obtain ⟨entries, rfl, selects⟩ := selects_of_forSentence found
    exact selects.faithful written

/-- A word that stands twice in a sentence has its parts in the graph once, and its feature leads to
the one that takes one of its values. -/
theorem tricky_faithful :
    (build Lexicon.trickyLexicon).Faithful Lexicon.trickyLexicon ["see", "n"] ∧
    (ofEntries Lexicon.trickyEntries.reverse).Faithful Lexicon.trickyLexicon ["n", "see", "n"] ∧
    (ofEntries Lexicon.trickyEntries.reverse).lookup "see" = some 1 ∧
    ((ofEntries Lexicon.trickyEntries.reverse).feature 0).partners = [1] := by
  obtain ⟨faithful, sentences⟩ := faithful_of_parse _ _ Lexicon.tricky_parsed
  have chosen : chooseEntries Lexicon.trickyLexicon [] ["n", "see", "n"] =
      .ok Lexicon.trickyEntries.reverse := by
    decide +kernel
  have found : forSentence Lexicon.trickyLexicon ["n", "see", "n"] =
      .ok (ofEntries Lexicon.trickyEntries.reverse) := by
    rw [forSentence, chosen]
    rfl
  exact ⟨faithful, sentences _ _ found, by decide +kernel, by decide +kernel⟩

end Graph

end MergeGrammar
