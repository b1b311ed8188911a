import MergeGrammar.Proofs.FeatureTexts

/-!
# Feature groups

The feature group of a word part is read exactly if it has a token, no token stands in it twice, and
every token is a category tag with a name or a written feature. The tags, the signed tokens and the
other tokens, each in their order, are then the categories of the part, what it asks for and what it
offers.
-/

namespace MergeGrammar

/-! ### Tokens of a feature group -/

/-- A token that stands for a category. -/
def isTag (token : String) : Bool := Feature.categoryMark.isPrefixOf token.toList

/-- A token that starts with one of the four signs. -/
def isSigned (token : String) : Bool := token.toList.head?.any (['=', '-', '<', '>'].contains ·)

/-- A token that may stand in a feature group: a category tag with a name or a written feature. -/
def IsGroupToken (token : String) : Prop :=
  (∃ name ≠ [], token.toList = Feature.categoryMark ++ name) ∨ ∃ f, Feature.parse? token = some f

lemma isTag_iff {token : String} :
    isTag token = true ↔ ∃ name, token.toList = Feature.categoryMark ++ name := by
  unfold isTag
  rw [List.isPrefixOf_iff_prefix]
  constructor
  · rintro ⟨name, hname⟩
    exact ⟨name, hname.symm⟩
  · rintro ⟨name, hname⟩
    exact ⟨name, hname.symm⟩

lemma parse?_eq_none_of_isTag {token : String} (h : isTag token = true) :
    Feature.parse? token = none := by
  unfold isTag at h
  rw [Feature.parse?, Feature.ofChars?, if_pos h]

lemma isTag_of_parse? {token : String} {f : Feature} (h : Feature.parse? token = some f) :
    isTag token = false := by
  by_contra htag
  rw [Bool.not_eq_false] at htag
  rw [parse?_eq_none_of_isTag htag] at h
  cases h

lemma isSigned_of_isTag {token : String} (h : isTag token = true) : isSigned token = false := by
  obtain ⟨name, hname⟩ := isTag_iff.1 h
  unfold isSigned
  rw [hname]
  rfl

/-- The sign that a token starts with makes its feature a negative one. -/
lemma isSigned_of_parse? {token : String} {f : Feature} (h : Feature.parse? token = some f) :
    isSigned token = !f.isPositive := by
  obtain ⟨writable, htext⟩ := Feature.parse?_eq_some_iff.1 h
  have token_eq : token.toList = f.chars := by
    rw [← htext, Feature.text, String.toList_ofList]
  unfold isSigned Feature.isPositive
  rw [token_eq, Feature.chars_eq]
  cases hsign : f.sign with
  | some sign => cases sign <;> rfl
  | none =>
    obtain ⟨c, rest, hname, hc⟩ := writable.name_start
    rw [hname]
    change ['=', '-', '<', '>'].contains c = false
    by_contra hsigned
    have sign_of : ∃ sign : Sign, c = sign.toChar := by
      simp only [Bool.not_eq_false, List.contains_eq_mem, List.mem_cons, List.not_mem_nil, or_false,
        decide_eq_true_eq] at hsigned
      rcases hsigned with rfl | rfl | rfl | rfl
      · exact ⟨.select, rfl⟩
      · exact ⟨.adjoin, rfl⟩
      · exact ⟨.left, rfl⟩
      · exact ⟨.right, rfl⟩
    obtain ⟨sign, rfl⟩ := sign_of
    rw [Feature.not_isWordCharacter_sign] at hc
    cases hc

/-! ### What a group says about a word part -/

namespace Part

/-- The categories and features of one part behind those of another. -/
def join (part further : Part) : Part where
  categories := part.categories ++ further.categories
  negative := part.negative ++ further.negative
  positive := part.positive ++ further.positive

/-- What some tokens say about a word part. -/
def ofTokens (tokens : List String) : Part where
  categories := tokens.filter isTag
  negative := (tokens.filterMap Feature.parse?).filter fun f => !f.isPositive
  positive := (tokens.filterMap Feature.parse?).filter Feature.isPositive

lemma join_assoc (part further last : Part) :
    (part.join further).join last = part.join (further.join last) := by
  unfold join
  simp only [List.append_assoc]

lemma empty_join (part : Part) : empty.join part = part := rfl

lemma join_ofTokens_nil (part : Part) : part.join (ofTokens []) = part := by
  unfold join ofTokens
  simp

lemma ofTokens_cons (token : String) (tokens : List String) :
    ofTokens (token :: tokens) = (ofTokens [token]).join (ofTokens tokens) := by
  have append : token :: tokens = [token] ++ tokens := rfl
  unfold join ofTokens
  rw [append, List.filter_append, List.filterMap_append, List.filter_append, List.filter_append]

lemma ofTokens_tag {token : String} (h : isTag token = true) :
    ofTokens [token] = ⟨[token], [], []⟩ := by
  unfold ofTokens
  simp [h, parse?_eq_none_of_isTag h]

lemma ofTokens_feature {token : String} {f : Feature} (h : Feature.parse? token = some f) :
    ofTokens [token] = if f.isPositive then ⟨[], [], [f]⟩ else ⟨[], [f], []⟩ := by
  unfold ofTokens
  cases hpositive : f.isPositive <;> simp [h, hpositive, isTag_of_parse? h]

/-- A token is added exactly if it may stand in a group. -/
lemma addToken_eq_ok_iff {word token : String} {part next : Part} :
    part.addToken word token = .ok next ↔
      IsGroupToken token ∧ next = part.join (ofTokens [token]) := by
  rw [addToken, ← isTag]
  by_cases htag : isTag token = true
  · obtain ⟨name, hname⟩ := isTag_iff.1 htag
    have token_iff : IsGroupToken token ↔ token.toList ≠ Feature.categoryMark := by
      unfold IsGroupToken
      rw [parse?_eq_none_of_isTag htag, hname]
      simp
    rw [if_pos htag, token_iff, ofTokens_tag htag]
    unfold join
    by_cases hmark : token.toList = Feature.categoryMark
    · simp [hmark]
    · simp [hmark, eq_comm]
  · have token_iff : IsGroupToken token ↔ ∃ f, Feature.parse? token = some f := by
      unfold IsGroupToken
      apply or_iff_right
      rintro ⟨name, -, hname⟩
      exact htag (isTag_iff.2 ⟨name, hname⟩)
    rw [if_neg htag, token_iff]
    cases hread : Feature.parse? token with
    | none => simp
    | some f =>
      rw [ofTokens_feature hread]
      unfold join
      cases hpositive : f.isPositive <;> simp [hpositive, eq_comm]

/-- Tokens are added exactly if they may stand in a group and none of them has been seen. -/
lemma addTokens_eq_ok_iff {word : String} {seen tokens : List String} {part next : Part} :
    part.addTokens word seen tokens = .ok next ↔
      (tokens.Nodup ∧ (∀ token ∈ tokens, token ∉ seen) ∧ ∀ token ∈ tokens, IsGroupToken token) ∧
        next = part.join (ofTokens tokens) := by
  induction tokens generalizing seen part with
  | nil => simp [addTokens, join_ofTokens_nil, eq_comm]
  | cons token tokens ih =>
    rw [addTokens]
    by_cases hseen : token ∈ seen
    · simp [hseen]
    · rw [if_neg hseen, ofTokens_cons, ← join_assoc]
      by_cases htoken : IsGroupToken token
      · have added : part.addToken word token = .ok (part.join (ofTokens [token])) :=
          addToken_eq_ok_iff.2 ⟨htoken, rfl⟩
        rw [added]
        dsimp only
        rw [ih]
        simp only [List.nodup_cons, List.mem_cons, not_or]
        grind
      · cases hadd : part.addToken word token with
        | error cause => simp [htoken]
        | ok added => exact absurd (addToken_eq_ok_iff.1 hadd).1 htoken

end Part

/-! ### Groups -/

/-- The tokens of a feature group. -/
def groupTokens (group : List Char) : List String := (Text.words group).map String.ofList

/-- A feature group that is read. -/
structure IsGroup (group : List Char) : Prop where
  nonempty : groupTokens group ≠ []
  distinct : (groupTokens group).Nodup
  tokens : ∀ token ∈ groupTokens group, IsGroupToken token

namespace Part

/-- A group is read exactly if its tokens make one. -/
lemma ofGroup_eq_ok_iff {word : String} {group : List Char} {part : Part} :
    ofGroup word group = .ok part ↔ IsGroup group ∧ part = ofTokens (groupTokens group) := by
  rw [ofGroup, ← groupTokens]
  cases htokens : groupTokens group with
  | nil =>
    apply iff_of_false
    · simp
    · rintro ⟨isGroup, -⟩
      exact isGroup.nonempty htokens
  | cons token tokens =>
    dsimp only
    rw [addTokens_eq_ok_iff, empty_join]
    apply and_congr_left'
    constructor
    · rintro ⟨distinct, -, tokens⟩
      exact ⟨by simp [htokens], htokens ▸ distinct, htokens ▸ tokens⟩
    · intro isGroup
      have distinct := isGroup.distinct
      have tokens := isGroup.tokens
      rw [htokens] at distinct tokens
      exact ⟨distinct, by simp, tokens⟩

/-- What is read of a group: the tags, the signed tokens and the other ones, each in their order. -/
structure Renders (group : List Char) (part : Part) : Prop where
  categories_eq : part.categories = (groupTokens group).filter isTag
  negative_eq : part.negative.map Feature.text = (groupTokens group).filter isSigned
  positive_eq : part.positive.map Feature.text =
    (groupTokens group).filter fun token => !isTag token && !isSigned token
  written : part.Written

lemma texts_ofTokens {tokens : List String} (h : ∀ token ∈ tokens, IsGroupToken token) :
    (ofTokens tokens).negative.map Feature.text = tokens.filter isSigned ∧
    (ofTokens tokens).positive.map Feature.text =
      tokens.filter fun token => !isTag token && !isSigned token := by
  induction tokens with
  | nil => exact ⟨rfl, rfl⟩
  | cons token tokens ih =>
    obtain ⟨negative_eq, positive_eq⟩ := ih fun t ht => h t (List.mem_cons_of_mem _ ht)
    rw [ofTokens_cons]
    unfold join
    by_cases htag : isTag token = true
    · rw [ofTokens_tag htag]
      simp [htag, isSigned_of_isTag htag, negative_eq, positive_eq]
    · rcases h token List.mem_cons_self with ⟨name, -, hname⟩ | ⟨f, hread⟩
      · exact absurd (isTag_iff.2 ⟨name, hname⟩) htag
      · have htext := Feature.text_of_parse? hread
        have hsigned := isSigned_of_parse? hread
        rw [ofTokens_feature hread]
        cases hpositive : f.isPositive <;> rw [hpositive] at hsigned <;>
          simp [htag, hsigned, htext, negative_eq, positive_eq]

lemma renders_ofTokens {group : List Char} (isGroup : IsGroup group) :
    Renders group (ofTokens (groupTokens group)) := by
  obtain ⟨negative_eq, positive_eq⟩ := texts_ofTokens isGroup.tokens
  have read := (@ofGroup_eq_ok_iff "" group _).2 ⟨isGroup, rfl⟩
  exact ⟨rfl, negative_eq, positive_eq, written_of_ofGroup read⟩

/-! ### No repetitions -/

end Part

lemma firstRepeat_eq_none {seen texts : List String} :
    firstRepeat seen texts = none ↔ texts.Nodup ∧ ∀ text ∈ texts, text ∉ seen := by
  induction texts generalizing seen with
  | nil => simp [firstRepeat]
  | cons text texts ih =>
    rw [firstRepeat]
    by_cases hseen : text ∈ seen
    · simp [hseen]
    · rw [if_neg hseen, ih]
      simp only [List.nodup_cons, List.mem_cons, not_or]
      grind

/-- A part that has been read repeats nothing, since different tokens have different texts. -/
lemma Part.Renders.firstRepeat_eq_none {group : List Char} {part : Part} (h : Renders group part)
    (isGroup : IsGroup group) : part.firstRepeat = none := by
  have distinct := isGroup.distinct
  have texts_eq : part.features.map Feature.text = (groupTokens group).filter isSigned ++
      (groupTokens group).filter fun token => !isTag token && !isSigned token := by
    rw [Part.features, List.map_append, h.negative_eq, h.positive_eq]
  rw [Part.firstRepeat, MergeGrammar.firstRepeat_eq_none, texts_eq, h.categories_eq]
  constructor
  · apply List.Nodup.append (distinct.filter _) (distinct.filter _)
    intro token hsigned hother
    have signed := (List.mem_filter.1 hsigned).2
    have other := (List.mem_filter.1 hother).2
    rw [signed] at other
    simp at other
  · intro token htoken hcategory
    have htag := (List.mem_filter.1 hcategory).2
    rcases List.mem_append.1 htoken with hsigned | hother
    · have signed := (List.mem_filter.1 hsigned).2
      rw [isSigned_of_isTag htag] at signed
      cases signed
    · have other := (List.mem_filter.1 hother).2
      rw [htag] at other
      cases other

end MergeGrammar
