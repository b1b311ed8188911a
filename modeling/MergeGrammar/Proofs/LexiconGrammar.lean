import Mathlib.Data.List.Forall2
import MergeGrammar.Proofs.FeatureGroups

/-!
# The grammar of written lexicons

A text is read as a lexicon exactly if each of its lines that is neither blank nor a comment has a word
between blanks, a double colon and feature groups between commas, and no two lines have the same word.
The lexicon has one entry for each such line, in their order. The check of its entries that follows
the reading can then find nothing but a word that stands twice.
-/

namespace MergeGrammar

/-! ### Lines with a word -/

/-- A line with a word and the feature groups of its parts: the word stands between blanks before the
first double colon and the groups between commas behind it. -/
structure WordLine (line word : List Char) (groups : List (List Char)) : Prop where
  spelled : ∃ left right, (∀ c ∈ left ++ right, Text.isBlank c = true) ∧
    ¬ [':', ':'] <:+: left ++ word ++ right ++ [':'] ∧
    line = left ++ word ++ right ++ ':' :: ':' :: [','].intercalate groups
  word_ne : word ≠ []
  word_chars : ∀ c ∈ word, Text.isBlank c = false
  groups_ne : groups ≠ []
  groups_chars : ∀ group ∈ groups, ',' ∉ group
  isGroup : ∀ group ∈ groups, IsGroup group

lemma wordLine_iff {line word : List Char} {groups : List (List Char)} :
    WordLine line word groups ↔ ∃ before after,
      Text.splitDoubleColon line = some (before, after) ∧ Text.trim before = word ∧
      Text.pieces (· == ',') after = groups ∧ word ≠ [] ∧ (∀ c ∈ word, Text.isBlank c = false) ∧
      ∀ group ∈ groups, IsGroup group := by
  constructor
  · intro h
    obtain ⟨left, right, blank, first, line_eq⟩ := h.spelled
    refine ⟨left ++ word ++ right, [','].intercalate groups, ?_, ?_, ?_, h.word_ne, h.word_chars,
      h.isGroup⟩
    · exact Text.splitDoubleColon_eq_some_iff.2 ⟨line_eq, first⟩
    · exact (Text.trim_eq_iff h.word_ne h.word_chars).2 ⟨left, right, blank, rfl⟩
    · exact Text.pieces_eq_iff.2 ⟨h.groups_ne, h.groups_chars, rfl⟩
  · rintro ⟨before, after, hsplit, htrim, hpieces, word_ne, word_chars, isGroup⟩
    obtain ⟨line_eq, first⟩ := Text.splitDoubleColon_eq_some_iff.1 hsplit
    obtain ⟨left, right, blank, rfl⟩ := (Text.trim_eq_iff word_ne word_chars).1 htrim
    obtain ⟨groups_ne, groups_chars, rfl⟩ := Text.pieces_eq_iff.1 hpieces
    exact ⟨⟨left, right, blank, first, line_eq⟩, word_ne, word_chars, groups_ne, groups_chars,
      isGroup⟩

/-- A line has one word. -/
lemma WordLine.word_unique {line word other : List Char} {groups groups' : List (List Char)}
    (h : WordLine line word groups) (h' : WordLine line other groups') : word = other := by
  obtain ⟨before, after, hsplit, rfl, -⟩ := wordLine_iff.1 h
  obtain ⟨before', after', hsplit', rfl, -⟩ := wordLine_iff.1 h'
  rw [hsplit] at hsplit'
  cases hsplit'
  rfl

namespace Entry

lemma readParts_eq_ok_iff {word : String} {groups : List (List Char)} {parts : List Part} :
    readParts word groups = .ok parts ↔ (∀ group ∈ groups, IsGroup group) ∧
      parts = groups.map fun group => Part.ofTokens (groupTokens group) := by
  induction groups generalizing parts with
  | nil => simp [readParts, eq_comm]
  | cons group groups ih =>
    rw [readParts, List.forall_mem_cons, List.map_cons]
    cases hgroup : Part.ofGroup word group with
    | error cause =>
      have refused : ¬ IsGroup group := by
        intro isGroup
        have read := (@Part.ofGroup_eq_ok_iff word group _).2 ⟨isGroup, rfl⟩
        rw [hgroup] at read
        cases read
      simp [refused]
    | ok part =>
      obtain ⟨isGroup, rfl⟩ := Part.ofGroup_eq_ok_iff.1 hgroup
      cases hgroups : readParts word groups with
      | error cause =>
        have refused : ¬ ∀ group ∈ groups, IsGroup group := by
          intro isGroups
          have read := ih.2 ⟨isGroups, rfl⟩
          rw [hgroups] at read
          cases read
        simp [refused]
      | ok others =>
        obtain ⟨isGroups, rfl⟩ := ih.1 hgroups
        constructor
        · intro h
          cases h
          exact ⟨⟨isGroup, isGroups⟩, rfl⟩
        · rintro ⟨-, rfl⟩
          rfl

/-- The entry that is read of a line. -/
def IsReadOf (line : List Char) (entry : Entry) : Prop :=
  ∃ groups, WordLine line entry.word.toList groups ∧
    entry.parts = groups.map fun group => Part.ofTokens (groupTokens group)

lemma ofLine_eq_ok_iff {number : Nat} {line : List Char} {entry : Entry} :
    ofLine number line = .ok entry ↔ IsReadOf line entry := by
  constructor
  · intro h
    rw [ofLine] at h
    split at h
    · cases h
    · next before after hsplit =>
      dsimp only at h
      split at h
      · cases h
      · next hword =>
        split at h
        · cases h
        · next parts hparts =>
          cases h
          rw [Bool.or_eq_true, not_or, List.isEmpty_iff, Bool.not_eq_true, List.any_eq_false] at hword
          obtain ⟨word_ne, word_chars⟩ := hword
          obtain ⟨isGroup, rfl⟩ := readParts_eq_ok_iff.1 hparts
          refine ⟨_, wordLine_iff.2 ⟨before, after, hsplit, ?_, rfl, ?_, ?_, isGroup⟩, rfl⟩
          · rw [String.toList_ofList]
          · rwa [String.toList_ofList]
          · simpa using word_chars
  · rintro ⟨groups, hline, parts_eq⟩
    obtain ⟨before, after, hsplit, htrim, hpieces, word_ne, word_chars, isGroup⟩ :=
      wordLine_iff.1 hline
    have unblank : entry.word.toList.any Text.isBlank = false := by
      rw [List.any_eq_false]
      intro c hc
      rw [word_chars c hc]
      exact Bool.false_ne_true
    have filled : entry.word.toList.isEmpty = false := by
      rwa [List.isEmpty_eq_false_iff]
    have read := (@readParts_eq_ok_iff entry.word groups _).2 ⟨isGroup, rfl⟩
    rw [← parts_eq] at read
    rw [ofLine, hsplit]
    dsimp only
    rw [htrim, hpieces, filled, unblank, String.ofList_toList, read]
    rfl

lemma IsReadOf.fault_eq_none {line : List Char} {entry : Entry} (h : IsReadOf line entry) :
    entry.fault = none := by
  obtain ⟨groups, hline, parts_eq⟩ := h
  have filled : entry.parts.isEmpty = false := by
    rw [List.isEmpty_eq_false_iff, parts_eq]
    simpa using hline.groups_ne
  have unrepeated : entry.parts.findSome? Part.firstRepeat = none := by
    rw [List.findSome?_eq_none_iff, parts_eq]
    intro part hpart
    obtain ⟨group, hgroup, rfl⟩ := List.mem_map.1 hpart
    have isGroup := hline.isGroup group hgroup
    exact (Part.renders_ofTokens isGroup).firstRepeat_eq_none isGroup
  rw [fault, filled, unrepeated]
  rfl

end Entry

/-! ### Texts -/

/-- The trimmed lines of a text that are neither blank nor comments. -/
def entryLines (text : String) : List (List Char) :=
  ((Text.lines text.toList).map Text.trim).filter fun line => line ≠ [] ∧ line.head? ≠ some '#'

namespace Lexicon

lemma isEntryLine_eq (line : List Char) :
    isEntryLine line = decide (line ≠ [] ∧ line.head? ≠ some '#') := by
  unfold isEntryLine
  split
  · rfl
  · rfl
  · next hcomment =>
    cases line with
    | nil => contradiction
    | cons c rest =>
      have hc : c ≠ '#' := by
        rintro rfl
        exact hcomment rest rfl
      simp [hc]

lemma readEntries_eq_ok_iff {lines : List (List Char × Nat)} {entries : List Entry} :
    readEntries lines = .ok entries ↔ List.Forall₂ Entry.IsReadOf
      ((lines.map fun line => Text.trim line.1).filter isEntryLine) entries := by
  induction lines generalizing entries with
  | nil => simp [readEntries, eq_comm]
  | cons line lines ih =>
    obtain ⟨line, number⟩ := line
    rw [readEntries, List.map_cons]
    by_cases hentry : isEntryLine (Text.trim line) = true
    · rw [if_pos hentry, List.filter_cons_of_pos hentry, List.forall₂_cons_left_iff]
      constructor
      · intro h
        split at h
        · cases h
        · next entry hline =>
          split at h
          · cases h
          · next others hothers =>
            cases h
            exact ⟨entry, others, Entry.ofLine_eq_ok_iff.1 hline, ih.1 hothers, rfl⟩
      · rintro ⟨entry, others, hline, hothers, rfl⟩
        have read := (@Entry.ofLine_eq_ok_iff number _ _).2 hline
        rw [read]
        dsimp only
        rw [ih.2 hothers]
    · rw [if_neg hentry, List.filter_cons_of_neg hentry]
      exact ih

lemma readEntries_lines_eq_ok_iff {text : String} {entries : List Entry} :
    readEntries ((Text.lines text.toList).zipIdx 1) = .ok entries ↔
      List.Forall₂ Entry.IsReadOf (entryLines text) entries := by
  have unnumbered : ((Text.lines text.toList).zipIdx 1).map (fun line => Text.trim line.1) =
      (Text.lines text.toList).map Text.trim := by
    rw [← List.zipIdx_map_fst 1 (Text.lines text.toList), List.map_map]
    simp [Function.comp_def]
  rw [readEntries_eq_ok_iff, unnumbered, entryLines, funext isEntryLine_eq]

/-- A text is read as the lexicon of the entries that its lines are read as. -/
lemma parse_eq_ok_iff {text : String} {lexicon : Lexicon} : parse text = .ok lexicon ↔
    List.Forall₂ Entry.IsReadOf (entryLines text) lexicon.entries := by
  rw [← readEntries_lines_eq_ok_iff, parse]
  constructor
  · intro h
    split at h
    · cases h
    · next entries hentries =>
      rw [hentries, entries_of_ofEntries h]
  · intro h
    rw [h]
    dsimp only
    unfold ofEntries
    split
    · rfl
    · next fault hfault =>
      rw [lexicon.faultless] at hfault
      cases hfault

end Lexicon

/-! ### Words on several lines -/

/-- Two lines have a word in common. -/
def SameWord (line other : List Char) : Prop :=
  ∃ word groups groups', WordLine line word groups ∧ WordLine other word groups'

lemma exists_rel_of_mem {α β : Type} {R : α → β → Prop} {xs : List α} {ys : List β}
    (h : List.Forall₂ R xs ys) {x : α} (hx : x ∈ xs) : ∃ y ∈ ys, R x y := by
  induction h with
  | nil => exact absurd hx List.not_mem_nil
  | cons hrel _ ih =>
    rcases List.mem_cons.1 hx with rfl | hx
    · exact ⟨_, List.mem_cons_self, hrel⟩
    · obtain ⟨y, hy, hrel⟩ := ih hx
      exact ⟨y, List.mem_cons_of_mem _ hy, hrel⟩

namespace Entry

variable {line other : List Char} {entry entry' : Entry} {lines : List (List Char)}
  {entries : List Entry}

lemma IsReadOf.sameWord_iff (h : IsReadOf line entry) (h' : IsReadOf other entry') :
    SameWord line other ↔ entry.word = entry'.word := by
  obtain ⟨groups, hline, -⟩ := h
  obtain ⟨groups', hother, -⟩ := h'
  constructor
  · rintro ⟨word, gs, gs', hword, hword'⟩
    rw [← String.toList_inj, hline.word_unique hword, hother.word_unique hword']
  · intro heq
    rw [← heq] at hother
    exact ⟨entry.word.toList, groups, groups', hline, hother⟩

/-- The entries have different words exactly if no two of the lines have the same word. -/
lemma nodup_words_iff (h : List.Forall₂ IsReadOf lines entries) :
    (entries.map word).Nodup ↔ lines.Pairwise fun line other => ¬ SameWord line other := by
  induction h with
  | nil => simp
  | @cons line entry lines entries hline hlines ih =>
    rw [List.map_cons, List.nodup_cons, List.pairwise_cons, ih]
    apply and_congr_left'
    constructor
    · intro fresh other hother same
      obtain ⟨entry', hentry', hread⟩ := exists_rel_of_mem hlines hother
      apply fresh
      rw [(hline.sameWord_iff hread).1 same]
      exact List.mem_map_of_mem hentry'
    · intro apart hmem
      obtain ⟨entry', hentry', hword⟩ := List.mem_map.1 hmem
      obtain ⟨other, hother, hread⟩ := exists_rel_of_mem hlines.flip hentry'
      exact apart other hother ((hline.sameWord_iff hread).2 hword.symm)

lemma exists_entries (h : ∀ line ∈ lines, ∃ word groups, WordLine line word groups) :
    ∃ entries, List.Forall₂ IsReadOf lines entries := by
  induction lines with
  | nil => exact ⟨[], List.Forall₂.nil⟩
  | cons line lines ih =>
    obtain ⟨⟨word, groups, hline⟩, hlines⟩ := List.forall_mem_cons.1 h
    obtain ⟨entries, hentries⟩ := ih hlines
    have hread : IsReadOf line
        ⟨String.ofList word, groups.map fun group => Part.ofTokens (groupTokens group)⟩ := by
      refine ⟨groups, ?_, rfl⟩
      rwa [String.toList_ofList]
    exact ⟨_, List.Forall₂.cons hread hentries⟩

/-- The entry says what stands on the line. -/
def Renders (line : List Char) (entry : Entry) : Prop :=
  ∃ groups, WordLine line entry.word.toList groups ∧
    List.Forall₂ Part.Renders groups entry.parts

lemma IsReadOf.renders (h : IsReadOf line entry) : Renders line entry := by
  obtain ⟨groups, hline, parts_eq⟩ := h
  refine ⟨groups, hline, ?_⟩
  rw [parts_eq, List.forall₂_map_right_iff, List.forall₂_same]
  intro group hgroup
  exact Part.renders_ofTokens (hline.isGroup group hgroup)

end Entry

/-- Entries that are not faulty by themselves can only have words that stand twice. -/
lemma eq_duplicateWord_of_firstFault {seen : List String} {entries : List Entry}
    {cause : LexiconError} (faultless : ∀ entry ∈ entries, entry.fault = none)
    (h : firstFault seen entries = some cause) : ∃ word, cause = .duplicateWord word := by
  induction entries generalizing seen with
  | nil => cases h
  | cons entry entries ih =>
    obtain ⟨hentry, hentries⟩ := List.forall_mem_cons.1 faultless
    rw [firstFault, hentry] at h
    dsimp only at h
    by_cases hseen : entry.word ∈ seen
    · rw [if_pos hseen] at h
      cases h
      exact ⟨entry.word, rfl⟩
    · rw [if_neg hseen] at h
      exact ih hentries h

namespace Lexicon

/-- Every entry line of a text has a word, and no two of them have the same word. -/
structure Grammatical (text : String) : Prop where
  lines : ∀ line ∈ entryLines text, ∃ word groups, WordLine line word groups
  distinct : (entryLines text).Pairwise fun line other => ¬ SameWord line other

/-- The entries of a lexicon are those on the lines of a text, in order, and its words are found. -/
structure Transcribes (text : String) (lexicon : Lexicon) : Prop where
  entries : List.Forall₂ Entry.Renders (entryLines text) lexicon.entries
  finds : ∀ word, (∃ entry, lexicon.get? word = some entry) ↔
    ∃ line ∈ entryLines text, ∃ groups, WordLine line word.toList groups
  found : ∀ word entry, lexicon.get? word = some entry →
    entry ∈ lexicon.entries ∧ entry.word = word

lemma fault_eq_none_of_read {text : String} {entries : List Entry}
    (h : List.Forall₂ Entry.IsReadOf (entryLines text) entries) :
    ∀ entry ∈ entries, entry.fault = none := by
  intro entry hentry
  obtain ⟨line, -, hread⟩ := exists_rel_of_mem h.flip hentry
  exact Entry.IsReadOf.fault_eq_none hread

lemma exists_parse_iff {text : String} :
    (∃ lexicon, parse text = .ok lexicon) ↔ Grammatical text := by
  constructor
  · rintro ⟨lexicon, hlexicon⟩
    have read := parse_eq_ok_iff.1 hlexicon
    refine ⟨fun line hline => ?_, (Entry.nodup_words_iff read).1 lexicon.nodup_words⟩
    obtain ⟨entry, -, groups, hword, -⟩ := exists_rel_of_mem read hline
    exact ⟨_, groups, hword⟩
  · rintro ⟨lines, distinct⟩
    obtain ⟨entries, read⟩ := Entry.exists_entries lines
    have faultless : firstFault [] entries = none := by
      rw [firstFault_eq_none]
      exact ⟨fault_eq_none_of_read read, (Entry.nodup_words_iff read).2 distinct, by simp⟩
    exact ⟨⟨entries, faultless⟩, parse_eq_ok_iff.2 read⟩

lemma transcribes_of_parse {text : String} {lexicon : Lexicon} (h : parse text = .ok lexicon) :
    Transcribes text lexicon := by
  have read := parse_eq_ok_iff.1 h
  refine ⟨read.imp fun _ _ hread => hread.renders, fun word => ?_, fun word entry =>
    get?_eq_some_iff.1⟩
  constructor
  · rintro ⟨entry, hentry⟩
    obtain ⟨hmem, rfl⟩ := get?_eq_some_iff.1 hentry
    obtain ⟨line, hline, groups, hword, -⟩ := exists_rel_of_mem read.flip hmem
    exact ⟨line, hline, groups, hword⟩
  · rintro ⟨line, hline, groups, hword⟩
    obtain ⟨entry, hentry, groups', hword', -⟩ := exists_rel_of_mem read hline
    have word_eq : word = entry.word := String.toList_inj.1 (hword.word_unique hword')
    rw [word_eq]
    exact ⟨entry, get?_eq_some hentry⟩

/-- A text is read exactly if it keeps to the grammar, and what is read of it is what its lines say. Of
the entries that are read only a word that stands twice can be refused afterwards. -/
theorem reads_grammar (text : String) :
    ((∃ lexicon, parse text = .ok lexicon) ↔ Grammatical text) ∧
    (∀ lexicon, parse text = .ok lexicon → Transcribes text lexicon) ∧
    ∀ entries cause, readEntries ((Text.lines text.toList).zipIdx 1) = .ok entries →
      ofEntries entries = .error cause → ∃ word, cause = .duplicateWord word := by
  refine ⟨exists_parse_iff, fun lexicon => transcribes_of_parse, fun entries cause read refused => ?_⟩
  have faultless := fault_eq_none_of_read (readEntries_lines_eq_ok_iff.1 read)
  unfold ofEntries at refused
  split at refused
  · cases refused
  · next fault hfault =>
    cases refused
    exact eq_duplicateWord_of_firstFault faultless hfault

/-- A text with a comment, blanks around a double colon, colons in a value and a word of two parts. -/
def trickyText : String := "# words

  see  ::=N:a::b|c cat:V moves, T
n::N:c
"

def trickyEntries : List Entry :=
  [⟨"see", [⟨["cat:V"], [⟨some .select, "N", ["a::b", "c"]⟩], [⟨none, "moves", []⟩]⟩,
      ⟨[], [], [⟨none, "T", []⟩]⟩]⟩,
    ⟨"n", [⟨[], [], [⟨none, "N", ["c"]⟩]⟩]⟩]

def trickyLexicon : Lexicon := ⟨trickyEntries, by decide⟩

lemma tricky_parsed : parse trickyText = .ok trickyLexicon := by
  have hentries : readEntries ((Text.lines trickyText.toList).zipIdx 1) = .ok trickyEntries := by
    decide +kernel
  rw [parse, hentries]
  rfl

def doubledEntries : List Entry :=
  [⟨"a", [⟨[], [], [⟨none, "N", []⟩]⟩]⟩, ⟨"a", [⟨[], [], [⟨none, "M", []⟩]⟩]⟩]

/-- The tricky text keeps to the grammar. A text with a word on two lines does not, and since all of
its lines are read it is that word which is refused. -/
theorem tricky_grammatical :
    Grammatical trickyText ∧ Transcribes trickyText trickyLexicon ∧
    ¬ Grammatical "a :: N\na :: M" ∧ ∃ word,
      ofEntries doubledEntries = .error (.duplicateWord word) := by
  obtain ⟨accepted, transcribed, -⟩ := reads_grammar trickyText
  obtain ⟨accepted', -, caused⟩ := reads_grammar "a :: N\na :: M"
  have read : readEntries ((Text.lines "a :: N\na :: M".toList).zipIdx 1) = .ok doubledEntries := by
    decide +kernel
  have refused : ofEntries doubledEntries = .error (.duplicateWord "a") := rfl
  refine ⟨accepted.1 ⟨_, tricky_parsed⟩, transcribed _ tricky_parsed, fun grammatical => ?_, ?_⟩
  · obtain ⟨lexicon, hlexicon⟩ := accepted'.2 grammatical
    rw [parse, read] at hlexicon
    cases refused.symm.trans hlexicon
  · obtain ⟨word, hword⟩ := caused doubledEntries _ read refused
    exact ⟨word, hword ▸ refused⟩

end Lexicon

end MergeGrammar
