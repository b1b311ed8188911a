import Mathlib.Data.List.Infix
import Mathlib.Data.List.TakeWhile
import MergeGrammar.Text.Blank

/-!
# Cuts of texts

What it means to cut a text: its pieces are the texts without the cutting character that make it up
with that character between them, a word is what is left when nothing but blanks stands around it, and
a line is split at a double colon before which none starts.
-/

namespace MergeGrammar.Text

/-! ### Pieces -/

lemma pieces_eq_splitOnP (cut : Char → Bool) (text : List Char) :
    pieces cut text = text.splitOnP cut := by
  induction text with
  | nil => rfl
  | cons a text ih =>
    rw [pieces, List.splitOnP_cons_eq_if_modifyHead, ih]
    cases hsplit : text.splitOnP cut with
    | nil => exact absurd hsplit (List.splitOnP_ne_nil _ _)
    | cons piece others => rfl

lemma intercalate_pieces (c : Char) (text : List Char) :
    [c].intercalate (pieces (· == c) text) = text := by
  rw [pieces_eq_splitOnP, ← List.splitOn_eq_splitOnP]
  exact List.intercalate_splitOn c

/-- Joined texts are cut apart again at the character between them. -/
lemma pieces_intercalate {c : Char} {texts : List (List Char)} (nonempty : texts ≠ [])
    (h : ∀ text ∈ texts, c ∉ text) : pieces (· == c) ([c].intercalate texts) = texts := by
  rw [pieces_eq_splitOnP, ← List.splitOn_eq_splitOnP]
  exact List.splitOn_intercalate c h nonempty

/-- The pieces of a text are the texts without the character that make it up with it between them. -/
lemma pieces_eq_iff {c : Char} {text : List Char} {texts : List (List Char)} :
    pieces (· == c) text = texts ↔
      texts ≠ [] ∧ (∀ piece ∈ texts, c ∉ piece) ∧ text = [c].intercalate texts := by
  constructor
  · rintro rfl
    refine ⟨pieces_ne_nil _ _, fun piece hpiece hc => ?_, (intercalate_pieces c text).symm⟩
    have uncut := not_cut_of_mem_pieces hpiece c hc
    simp at uncut
  · rintro ⟨nonempty, chars, rfl⟩
    exact pieces_intercalate nonempty chars

lemma mem_intercalate {c a : Char} {texts : List (List Char)} (h : a ∈ [c].intercalate texts) :
    a = c ∨ ∃ text ∈ texts, a ∈ text := by
  induction texts with
  | nil => simp at h
  | cons text texts ih =>
    cases texts with
    | nil =>
      rw [List.intercalate_singleton] at h
      exact Or.inr ⟨text, List.mem_cons_self, h⟩
    | cons other texts =>
      rw [List.intercalate_cons_cons, List.mem_append, List.mem_append, List.mem_singleton] at h
      rcases h with (h | h) | h
      · exact Or.inr ⟨text, List.mem_cons_self, h⟩
      · exact Or.inl h
      · apply (ih h).imp_right
        rintro ⟨t, ht, hmem⟩
        exact ⟨t, List.mem_cons_of_mem _ ht, hmem⟩

lemma subset_of_mem_pieces {cut : Char → Bool} {text piece : List Char}
    (h : piece ∈ pieces cut text) : piece ⊆ text := by
  induction text generalizing piece with
  | nil =>
    rw [pieces, List.mem_singleton] at h
    rw [h]
    exact List.nil_subset _
  | cons a text ih =>
    rw [pieces] at h
    by_cases ha : cut a = true
    · rw [if_pos ha, List.mem_cons] at h
      rcases h with rfl | h
      · exact List.nil_subset _
      · exact List.subset_cons_of_subset a (ih h)
    · rw [if_neg ha] at h
      cases hpieces : pieces cut text with
      | nil => exact absurd hpieces (pieces_ne_nil cut text)
      | cons first others =>
        rw [hpieces] at h ih
        rcases List.mem_cons.1 h with rfl | h
        · exact List.cons_subset_cons a (ih List.mem_cons_self)
        · exact List.subset_cons_of_subset a (ih (List.mem_cons_of_mem _ h))

/-! ### Texts without the blanks around them -/

lemma dropBlanks_append {left text : List Char} (h : ∀ c ∈ left, isBlank c = true) :
    dropBlanks (left ++ text) = dropBlanks text := by
  unfold dropBlanks
  exact List.dropWhile_append_of_pos h

lemma dropBlanks_of_unblank {text rest : List Char} (nonempty : text ≠ [])
    (h : ∀ c ∈ text, isBlank c = false) : dropBlanks (text ++ rest) = text ++ rest := by
  cases text with
  | nil => exact absurd rfl nonempty
  | cons c text =>
    have hc := h c List.mem_cons_self
    unfold dropBlanks
    rw [List.cons_append, List.dropWhile_cons_of_neg]
    simp [hc]

/-- Some blanks stand before what is left. -/
lemma exists_append_dropBlanks (text : List Char) :
    ∃ left, (∀ c ∈ left, isBlank c = true) ∧ text = left ++ dropBlanks text := by
  have split_eq := List.takeWhile_append_dropWhile (p := isBlank) (l := text)
  exact ⟨text.takeWhile isBlank, fun c hc => List.mem_takeWhile_imp hc, split_eq.symm⟩

lemma exists_append_trim (text : List Char) : ∃ left right,
    (∀ c ∈ left ++ right, isBlank c = true) ∧ text = left ++ trim text ++ right := by
  obtain ⟨left, hleft, text_eq⟩ := exists_append_dropBlanks text
  obtain ⟨right, hright, rest_eq⟩ := exists_append_dropBlanks (dropBlanks text).reverse
  refine ⟨left, right.reverse, ?_, ?_⟩
  · intro c hc
    rcases List.mem_append.1 hc with hc | hc
    · exact hleft c hc
    · exact hright c (List.mem_reverse.1 hc)
  · have core_eq : dropBlanks text = trim text ++ right.reverse := by
      rw [trim, ← List.reverse_append, ← rest_eq, List.reverse_reverse]
    rw [List.append_assoc, ← core_eq, ← text_eq]

/-- A word is what is left of a text exactly if nothing but blanks stands around it there. -/
lemma trim_eq_iff {text word : List Char} (nonempty : word ≠ [])
    (unblank : ∀ c ∈ word, isBlank c = false) : trim text = word ↔
      ∃ left right, (∀ c ∈ left ++ right, isBlank c = true) ∧ text = left ++ word ++ right := by
  constructor
  · rintro rfl
    exact exists_append_trim text
  · rintro ⟨left, right, blank, rfl⟩
    have blank_left : ∀ c ∈ left, isBlank c = true :=
      fun c hc => blank c (List.mem_append_left _ hc)
    have blank_right : ∀ c ∈ right.reverse, isBlank c = true :=
      fun c hc => blank c (List.mem_append_right _ (List.mem_reverse.1 hc))
    have unblank' : ∀ c ∈ word.reverse, isBlank c = false :=
      fun c hc => unblank c (List.mem_reverse.1 hc)
    have kept := @dropBlanks_of_unblank word.reverse [] (by simpa using nonempty) unblank'
    rw [List.append_nil] at kept
    rw [trim, List.append_assoc, dropBlanks_append blank_left, dropBlanks_of_unblank nonempty unblank,
      List.reverse_append, dropBlanks_append blank_right, kept, List.reverse_reverse]

/-! ### The first double colon -/

lemma splitDoubleColon_cons {c : Char} {rest : List Char} (h : ¬ [':', ':'] <+: c :: rest) :
    splitDoubleColon (c :: rest) =
      (splitDoubleColon rest).map fun (before, after) => (c :: before, after) := by
  rw [splitDoubleColon]
  rintro others rfl rfl
  exact h ⟨others, rfl⟩

/-- A line is split at a double colon before which none starts. -/
lemma splitDoubleColon_eq_some_iff {line before after : List Char} :
    splitDoubleColon line = some (before, after) ↔
      line = before ++ ':' :: ':' :: after ∧ ¬ [':', ':'] <:+: before ++ [':'] := by
  induction line generalizing before after with
  | nil => simp [splitDoubleColon]
  | cons c rest ih =>
    by_cases hstart : [':', ':'] <+: c :: rest
    · obtain ⟨others, hothers⟩ := hstart
      rw [← hothers]
      change some ([], others) = some (before, after) ↔ _
      constructor
      · intro h
        cases h
        exact ⟨rfl, by decide⟩
      · rintro ⟨line_eq, first⟩
        cases before with
        | nil =>
          cases line_eq
          rfl
        | cons a before =>
          -- The double colon at the start would come before the one that splits the line.
          apply absurd _ first
          cases before with
          | nil =>
            cases line_eq
            exact List.infix_refl _
          | cons b before =>
            cases line_eq
            exact ⟨[], before ++ [':'], rfl⟩
    · rw [splitDoubleColon_cons hstart, Option.map_eq_some_iff]
      constructor
      · rintro ⟨⟨before, after⟩, hrest, hpair⟩
        cases hpair
        obtain ⟨rest_eq, first⟩ := ih.1 hrest
        refine ⟨by rw [rest_eq, List.cons_append], fun hinfix => ?_⟩
        rw [List.cons_append, List.infix_cons_iff] at hinfix
        rcases hinfix with hprefix | hinfix
        · apply hstart
          rw [rest_eq]
          refine hprefix.trans ?_
          simp
        · exact first hinfix
      · rintro ⟨line_eq, first⟩
        cases before with
        | nil =>
          apply absurd _ hstart
          rw [line_eq]
          exact ⟨after, rfl⟩
        | cons a before =>
          cases line_eq
          refine ⟨(before, after), ih.2 ⟨rfl, fun hinfix => first ?_⟩, rfl⟩
          rw [List.cons_append, List.infix_cons_iff]
          exact Or.inr hinfix

end MergeGrammar.Text
