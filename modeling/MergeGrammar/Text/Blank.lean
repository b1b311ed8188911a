/-!
# Blanks

Lexicon text, sentence lists and sentences are cut at blanks, the characters with the Unicode
property White_Space. Text is handled as a list of characters here. `pieces` cuts a text at every
character of a class and keeps the empty pieces; lines, groups and words are all cut with it.
-/

namespace MergeGrammar.Text

/-- The characters with the property White_Space, all of them below U+3001. -/
def isBlank (c : Char) : Bool :=
  let n := c.toNat
  (0x09 ≤ n && n ≤ 0x0D) || n == 0x20 || n == 0x85 || n == 0xA0 || n == 0x1680 ||
    (0x2000 ≤ n && n ≤ 0x200A) || n == 0x2028 || n == 0x2029 || n == 0x202F || n == 0x205F ||
    n == 0x3000

/-- The stretches of `text` between the characters of the class `cut`, empty ones included. -/
def pieces (cut : Char → Bool) : List Char → List (List Char)
  | [] => [[]]
  | c :: text =>
    if cut c then [] :: pieces cut text
    else match pieces cut text with
      | [] => [[c]]
      | piece :: others => (c :: piece) :: others

theorem pieces_ne_nil (cut : Char → Bool) (text : List Char) : pieces cut text ≠ [] := by
  cases text with
  | nil => simp [pieces]
  | cons c text =>
    rw [pieces]
    split
    · simp
    · split <;> simp

/-- No piece holds a character at which the text is cut. -/
theorem not_cut_of_mem_pieces {cut : Char → Bool} {text piece : List Char}
    (h : piece ∈ pieces cut text) : ∀ c ∈ piece, cut c = false := by
  induction text generalizing piece with
  | nil =>
    simp only [pieces, List.mem_singleton] at h
    simp [h]
  | cons a text ih =>
    rw [pieces] at h
    split at h
    · rcases List.mem_cons.1 h with rfl | h
      · simp
      · exact ih h
    · next ha =>
      split at h
      · next hnil => exact absurd hnil (pieces_ne_nil cut text)
      · next p others hp =>
        rcases List.mem_cons.1 h with rfl | h
        · intro c hc
          rcases List.mem_cons.1 hc with rfl | hc
          · simpa using ha
          · exact ih (hp ▸ List.mem_cons_self) c hc
        · exact ih (hp ▸ List.mem_cons_of_mem _ h)

def lines (text : List Char) : List (List Char) := pieces (· == '\n') text

/-- The words of a text, its longest stretches without a blank. -/
def words (text : List Char) : List (List Char) :=
  (pieces isBlank text).filter (fun piece => !piece.isEmpty)

theorem ne_nil_of_mem_words {text word : List Char} (h : word ∈ words text) : word ≠ [] := by
  simp only [words, List.mem_filter, Bool.not_eq_true', List.isEmpty_eq_false_iff] at h
  exact h.2

theorem not_isBlank_of_mem_words {text word : List Char} (h : word ∈ words text) :
    ∀ c ∈ word, isBlank c = false :=
  not_cut_of_mem_pieces (List.mem_filter.1 h).1

def dropBlanks (text : List Char) : List Char := text.dropWhile isBlank

def trim (text : List Char) : List Char := (dropBlanks (dropBlanks text).reverse).reverse

/-- The text before and after the first double colon, if there is one. -/
def splitDoubleColon : List Char → Option (List Char × List Char)
  | [] => none
  | ':' :: ':' :: rest => some ([], rest)
  | c :: rest => (splitDoubleColon rest).map fun (before, after) => (c :: before, after)

/-- A sentence is read as the words of its text. -/
def tokens (sentence : String) : List String := (words sentence.toList).map String.ofList

/-- The sentences of a list, one on each line that is neither blank nor a `#` comment. -/
def sentences (text : String) : List String :=
  ((lines text.toList).map trim).filterMap fun line =>
    match line with
    | [] => none
    | '#' :: _ => none
    | _ => some (String.ofList line)

end MergeGrammar.Text
