import MergeGrammar.Proofs.GraphGrowth
import MergeGrammar.Proofs.PartLicences

/-!
# Texts of features

A feature that has a written form is read back from it, and only such features are ever read. So a
feature that has been read is determined by its text, and features that share a node of a graph are
the same.
-/

namespace MergeGrammar

namespace Feature

/-- A feature that has a written form: its name starts with a word character and holds neither colons
nor blanks, its values are neither empty nor hold bars or blanks, and it does not look like a category
tag. -/
structure Writable (f : Feature) : Prop where
  name_start : ∃ c rest, f.name.toList = c :: rest ∧ Text.isWordCharacter c = true
  name_chars : ∀ c ∈ f.name.toList, c ≠ ':' ∧ Text.isBlank c = false
  values_ne : ∀ value ∈ f.values, value ≠ ""
  values_chars : ∀ value ∈ f.values, ∀ c ∈ value.toList, c ≠ '|' ∧ Text.isBlank c = false
  not_category : f.sign = none → f.name = "cat" → f.values = []

/-- What stands behind the name of a feature. -/
def valueChars (values : List String) : List Char :=
  if values.isEmpty then [] else ':' :: ['|'].intercalate (values.map String.toList)

lemma chars_eq (f : Feature) :
    f.chars = (f.sign.map Sign.toChar).toList ++ (f.name.toList ++ valueChars f.values) := by
  unfold chars valueChars
  exact List.append_assoc _ _ _

lemma isNameCharacter_iff {c : Char} :
    isNameCharacter c = true ↔ c ≠ ':' ∧ Text.isBlank c = false := by
  unfold isNameCharacter
  simp

/-! ### Reading what has been written -/

/-- No feature name starts with a sign. -/
lemma not_isWordCharacter_sign (sign : Sign) : Text.isWordCharacter sign.toChar = false := by
  cases sign <;> decide +kernel

lemma splitSign_append {c : Char} (sign : Option Sign) (rest : List Char)
    (hc : Text.isWordCharacter c = true) :
    splitSign ((sign.map Sign.toChar).toList ++ c :: rest) = (sign, c :: rest) := by
  cases sign with
  | some sign => simp [splitSign, Sign.ofChar?_toChar]
  | none =>
    have unsigned : Sign.ofChar? c = none := by
      by_contra hsome
      obtain ⟨sign, hsign⟩ := Option.ne_none_iff_exists'.1 hsome
      rw [Sign.eq_toChar_of_ofChar? hsign, not_isWordCharacter_sign] at hc
      exact Bool.false_ne_true hc
    simp [splitSign, unsigned]

/-- Behind the name nothing stands or a colon. -/
lemma takeWhile_valueChars (values : List String) :
    (valueChars values).takeWhile isNameCharacter = [] := by
  unfold valueChars
  split
  · rfl
  · rfl

lemma dropWhile_valueChars (values : List String) :
    (valueChars values).dropWhile isNameCharacter = valueChars values := by
  unfold valueChars
  split
  · rfl
  · rfl

lemma takeWhile_name {name : List Char} (values : List String)
    (h : ∀ c ∈ name, isNameCharacter c = true) :
    (name ++ valueChars values).takeWhile isNameCharacter = name := by
  rw [List.takeWhile_append_of_pos h, takeWhile_valueChars, List.append_nil]

lemma dropWhile_name {name : List Char} (values : List String)
    (h : ∀ c ∈ name, isNameCharacter c = true) :
    (name ++ valueChars values).dropWhile isNameCharacter = valueChars values := by
  rw [List.dropWhile_append_of_pos h, dropWhile_valueChars]

lemma readValues?_valueChars {values : List String} (nonempty : ∀ value ∈ values, value ≠ "")
    (chars : ∀ value ∈ values, ∀ c ∈ value.toList, c ≠ '|' ∧ Text.isBlank c = false) :
    readValues? (valueChars values) = some values := by
  cases values with
  | nil => rfl
  | cons value values =>
    have cut : Text.pieces (· == '|') (['|'].intercalate ((value :: values).map String.toList)) =
        (value :: values).map String.toList := by
      apply Text.pieces_intercalate
      · simp
      · intro text htext hbar
        obtain ⟨v, hv, rfl⟩ := List.mem_map.1 htext
        exact (chars v hv '|' hbar).1 rfl
    have unblank : (['|'].intercalate ((value :: values).map String.toList)).any Text.isBlank =
        false := by
      rw [List.any_eq_false]
      intro c hc
      rcases Text.mem_intercalate hc with rfl | ⟨text, htext, hmem⟩
      · decide
      · obtain ⟨v, hv, rfl⟩ := List.mem_map.1 htext
        rw [(chars v hv c hmem).2]
        exact Bool.false_ne_true
    have filled : ((value :: values).map String.toList).any List.isEmpty = false := by
      rw [List.any_eq_false]
      intro text htext
      obtain ⟨v, hv, rfl⟩ := List.mem_map.1 htext
      rw [List.isEmpty_iff, String.toList_eq_nil_iff]
      exact nonempty v hv
    have back : ((value :: values).map String.toList).map String.ofList = value :: values := by
      simp [Function.comp_def]
    change readValues? (':' :: ['|'].intercalate ((value :: values).map String.toList)) = _
    simp only [readValues?, cut, unblank, filled, back]
    rfl

/-- No writable feature looks like a category tag. -/
lemma Writable.not_categoryMark {f : Feature} (h : f.Writable) :
    categoryMark.isPrefixOf f.chars = false := by
  rw [Bool.eq_false_iff, ne_eq, List.isPrefixOf_iff_prefix, chars_eq]
  rintro ⟨rest, hrest⟩
  cases hsign : f.sign with
  | some sign =>
    rw [hsign] at hrest
    cases sign <;> cases hrest
  | none =>
    rw [hsign] at hrest
    change categoryMark ++ rest = f.name.toList ++ valueChars f.values at hrest
    have named : ∀ c ∈ f.name.toList, isNameCharacter c = true :=
      fun c hc => isNameCharacter_iff.2 (h.name_chars c hc)
    -- The name ends where the first colon stands, which is behind the three letters.
    have name_eq : f.name.toList = ['c', 'a', 't'] := by
      rw [← takeWhile_name f.values named, ← hrest]
      rfl
    have values_eq : valueChars f.values = ':' :: rest := by
      rw [← dropWhile_name f.values named, ← hrest]
      rfl
    have called : f.name = "cat" := by
      rw [← String.toList_inj, name_eq]
      rfl
    rw [h.not_category hsign called] at values_eq
    cases values_eq

/-- A writable feature is read back from its text. -/
lemma Writable.parse?_text {f : Feature} (h : f.Writable) : parse? f.text = some f := by
  have named : ∀ c ∈ f.name.toList, isNameCharacter c = true :=
    fun c hc => isNameCharacter_iff.2 (h.name_chars c hc)
  obtain ⟨c, rest, hname, hc⟩ := h.name_start
  have split_eq : splitSign f.chars = (f.sign, f.name.toList ++ valueChars f.values) := by
    rw [chars_eq, hname]
    exact splitSign_append f.sign _ hc
  have start : (Text.isWordCharacter c && isNameCharacter c) = true := by
    rw [hc, named c (hname ▸ List.mem_cons_self)]
    rfl
  have taken := takeWhile_name f.values named
  have dropped := dropWhile_name f.values named
  rw [parse?, text, String.toList_ofList, ofChars?, h.not_categoryMark, split_eq]
  rw [hname] at taken dropped ⊢
  simp only [List.cons_append] at taken dropped ⊢
  rw [if_neg Bool.false_ne_true, if_pos start, taken, dropped,
    readValues?_valueChars h.values_ne h.values_chars, ← hname, String.ofList_toList]
  rfl

/-! ### Writing what has been read -/

lemma readValues?_spec {text : List Char} {values : List String}
    (h : readValues? text = some values) : ∀ value ∈ values,
      value ≠ "" ∧ ∀ c ∈ value.toList, c ≠ '|' ∧ Text.isBlank c = false := by
  unfold readValues? at h
  split at h
  · cases h
    exact fun _ hvalue => absurd hvalue List.not_mem_nil
  · next text =>
    dsimp only at h
    split at h
    · cases h
    · next hbad =>
      cases h
      rw [Bool.or_eq_true, not_or, Bool.not_eq_true, Bool.not_eq_true, List.any_eq_false,
        List.any_eq_false] at hbad
      obtain ⟨unblank, filled⟩ := hbad
      intro value hvalue
      obtain ⟨piece, hpiece, rfl⟩ := List.mem_map.1 hvalue
      constructor
      · rintro hempty
        have piece_eq := congrArg String.toList hempty
        rw [String.toList_ofList] at piece_eq
        exact filled piece hpiece (List.isEmpty_iff.2 piece_eq)
      · intro c hc
        rw [String.toList_ofList] at hc
        have uncut := Text.not_cut_of_mem_pieces hpiece c hc
        have blank := unblank c (Text.subset_of_mem_pieces hpiece hc)
        exact ⟨beq_eq_false_iff_ne.1 uncut, Bool.eq_false_iff.2 blank⟩
  · cases h

/-- Only writable features are read. -/
lemma writable_of_parse? {token : String} {f : Feature} (h : parse? token = some f) :
    f.Writable := by
  have written : f.chars = token.toList := chars_of_ofChars? h
  rw [parse?, ofChars?] at h
  split at h
  · cases h
  · next unmarked =>
    cases hsplit : splitSign token.toList with
    | mk sign rest =>
      rw [hsplit] at h
      dsimp only at h
      split at h
      · cases h
      · next c rest =>
        split at h
        · next start =>
          obtain ⟨values, hvalues, rfl⟩ := Option.map_eq_some_iff.1 h
          obtain ⟨hword, hname⟩ := Bool.and_eq_true_iff.1 start
          have values_spec := readValues?_spec hvalues
          refine ⟨?_, ?_, fun v hv => (values_spec v hv).1, fun v hv => (values_spec v hv).2, ?_⟩
          · refine ⟨c, rest.takeWhile isNameCharacter, ?_, hword⟩
            rw [String.toList_ofList, List.takeWhile_cons_of_pos hname]
          · intro a ha
            rw [String.toList_ofList] at ha
            exact isNameCharacter_iff.1 (List.mem_takeWhile_imp ha)
          · dsimp only
            intro hsign hcat
            by_contra hvalues_ne
            apply unmarked
            rw [List.isPrefixOf_iff_prefix, ← written, chars_eq]
            dsimp only
            rw [hsign, hcat, valueChars, if_neg (by rwa [List.isEmpty_iff])]
            exact ⟨_, rfl⟩
        · cases h

/-- Reading gives the writable features, each from its text. -/
theorem parse?_eq_some_iff {token : String} {f : Feature} :
    parse? token = some f ↔ f.Writable ∧ f.text = token := by
  constructor
  · intro h
    exact ⟨writable_of_parse? h, text_of_parse? h⟩
  · rintro ⟨writable, rfl⟩
    exact writable.parse?_text

lemma eq_of_parse? {token other : String} {f g : Feature} (hf : parse? token = some f)
    (hg : parse? other = some g) (htext : f.text = g.text) : f = g :=
  (readable_of_parse? hf).eq (readable_of_parse? hg) htext

end Feature

/-! ### Features at the nodes of a graph -/

namespace Graph

/-- Where word parts of the graph point to the same feature node they have the same feature. -/
def TellsApart (graph : Graph) : Prop :=
  ∀ (part other : EntryId) (i j : Nat) (f g : Feature),
    (graph.entry part).part.features[i]? = some f →
    (graph.entry other).part.features[j]? = some g →
    (graph.entry part).features[i]? = (graph.entry other).features[j]? → f = g

lemma tellsApart_ofEntries {entries : List Entry}
    (read : ∀ f ∈ partFeatures entries, ∃ token, Feature.parse? token = some f) :
    (ofEntries entries).TellsApart := by
  intro part other i j f g hf hg hnode
  have hf_all := mem_partFeatures_of_entry (List.mem_of_getElem? hf)
  have hg_all := mem_partFeatures_of_entry (List.mem_of_getElem? hg)
  rw [features_eq_map, features_eq_map, List.getElem?_map, List.getElem?_map, hf, hg] at hnode
  have number_eq : number entries f = number entries g := Option.some.inj hnode
  have text_eq : f.text = g.text := (List.idxOf_inj (mem_nodeTexts hf_all)).1 number_eq
  obtain ⟨token, htoken⟩ := read f hf_all
  obtain ⟨token', htoken'⟩ := read g hg_all
  exact Feature.eq_of_parse? htoken htoken' text_eq

end Graph

namespace Feature

/-- Reading and writing undo each other on the features that have a written form, which are those that
are read. So their texts tell them apart, also as keys of the nodes of a graph. -/
theorem texts_faithful :
    (∀ token f, parse? token = some f → f.text = token) ∧
    (∀ f : Feature, f.Writable → parse? f.text = some f) ∧
    (∀ token f, parse? token = some f → f.Writable) ∧
    (∀ token other f g, parse? token = some f → parse? other = some g → f.text = g.text → f = g) ∧
    ∀ entries : List Entry,
      (∀ f ∈ Graph.partFeatures entries, ∃ token, parse? token = some f) →
      (Graph.ofEntries entries).TellsApart := by
  constructor
  · intro token f h
    exact (parse?_eq_some_iff.1 h).2
  constructor
  · intro f writable
    exact parse?_eq_some_iff.2 ⟨writable, rfl⟩
  constructor
  · intro token f h
    exact (parse?_eq_some_iff.1 h).1
  constructor
  · intro token other f g hf hg htext
    exact eq_of_parse? hf hg htext
  · intro entries read
    exact Graph.tellsApart_ofEntries read

/-- A signed feature may be named like a category tag and have colons in its values, and two word parts
that offer and ask for a feature of one name point to different nodes. -/
theorem doubleColon_value_read :
    parse? "=cat:a::b|c" = some ⟨some .select, "cat", ["a::b", "c"]⟩ ∧
    (Graph.ofEntries Licensing.echoEntries).TellsApart ∧
    ((Graph.ofEntries Licensing.echoEntries).entry 0).features ≠
      ((Graph.ofEntries Licensing.echoEntries).entry 1).features := by
  obtain ⟨-, reads, -, -, apart⟩ := texts_faithful
  have writable : Writable ⟨some .select, "cat", ["a::b", "c"]⟩ :=
    { name_start := ⟨'c', ['a', 't'], by decide +kernel, by decide +kernel⟩
      name_chars := by simp [Text.isBlank]
      values_ne := by simp
      values_chars := by simp [Text.isBlank]
      not_category := fun unsigned => by cases unsigned }
  have echo_apart : (Graph.ofEntries Licensing.echoEntries).TellsApart := by
    apply apart
    have all_read : ∀ f ∈ Graph.partFeatures Licensing.echoEntries, parse? f.text = some f := by
      decide +kernel
    exact fun f hf => ⟨f.text, all_read f hf⟩
  have text_eq : text ⟨some .select, "cat", ["a::b", "c"]⟩ = "=cat:a::b|c" := by decide +kernel
  have read := reads _ writable
  rw [text_eq] at read
  refine ⟨read, echo_apart, fun same => ?_⟩
  have feature_eq := echo_apart 0 1 0 0 ⟨some .select, "N", []⟩ ⟨none, "N", []⟩ (by decide +kernel)
    (by decide +kernel) (congrArg (·[0]?) same)
  cases feature_eq

end Feature

end MergeGrammar
