import MergeGrammar.Lexicon.Reader
import MergeGrammar.Proofs.FeatureWiring
import MergeGrammar.Proofs.TextCuts

/-!
# Written features

The text of a feature that has been read is the token it was read from, so such features with the
same text are the same. In a graph of a written lexicon, or of the words of a sentence with it, every
word part therefore points to nodes of its own features, those it asks for before those it offers.
-/

namespace MergeGrammar

namespace Feature

lemma splitSign_eq {token rest : List Char} {sign : Option Sign}
    (h : splitSign token = (sign, rest)) : (sign.map Sign.toChar).toList ++ rest = token := by
  cases token with
  | nil =>
    cases h
    rfl
  | cons c token =>
    rw [splitSign] at h
    split at h
    · next found hfound =>
      cases h
      rw [Sign.eq_toChar_of_ofChar? hfound]
      rfl
    · cases h
      rfl

lemma readValues?_eq {text : List Char} {values : List String} (h : readValues? text = some values) :
    (if values.isEmpty then [] else ':' :: ['|'].intercalate (values.map String.toList)) = text := by
  cases text with
  | nil =>
    cases h
    rfl
  | cons c text =>
    by_cases hc : c = ':'
    · subst hc
      simp only [readValues?] at h
      split at h
      · cases h
      · cases h
        have htexts : ((Text.pieces (· == '|') text).map String.ofList).map String.toList =
            Text.pieces (· == '|') text := by
          simp [Function.comp_def]
        rw [htexts, Text.intercalate_pieces, if_neg]
        simpa using Text.pieces_ne_nil _ text
    · have hnone : readValues? (c :: text) = none := by
        rw [readValues?]
        · simp
        · rintro rest heq
          cases heq
          exact hc rfl
      rw [hnone] at h
      cases h

/-- The text of a feature is what it was read from. -/
lemma chars_of_ofChars? {token : List Char} {f : Feature} (h : ofChars? token = some f) :
    f.chars = token := by
  rw [ofChars?] at h
  split at h
  · cases h
  · cases hsplit : splitSign token with
    | mk sign rest =>
      rw [hsplit] at h
      dsimp only at h
      split at h
      · cases h
      · next c rest =>
        split at h
        · obtain ⟨values, hvalues, rfl⟩ := Option.map_eq_some_iff.1 h
          rw [← splitSign_eq hsplit, chars, String.toList_ofList, readValues?_eq hvalues,
            List.append_assoc, List.takeWhile_append_dropWhile]
        · cases h

lemma text_of_parse? {token : String} {f : Feature} (h : parse? token = some f) : f.text = token := by
  rw [text, chars_of_ofChars? h, String.ofList_toList]

/-- The feature is what its text says. -/
def Readable (f : Feature) : Prop := parse? f.text = some f

lemma readable_of_parse? {token : String} {f : Feature} (h : parse? token = some f) : f.Readable := by
  rw [Readable, text_of_parse? h, h]

lemma Readable.eq {f g : Feature} (hf : f.Readable) (hg : g.Readable) (htext : f.text = g.text) :
    f = g := by
  rw [Readable, htext, hg] at hf
  exact (Option.some.inj hf).symm

end Feature

/-- What the reader makes of a feature group. -/
structure Part.Written (part : Part) : Prop where
  asks : ∀ f ∈ part.negative, f.isPositive = false
  offers : ∀ f ∈ part.positive, f.isPositive = true
  readable : ∀ f ∈ part.features, f.Readable

namespace Part

lemma written_empty : Part.empty.Written :=
  ⟨fun _ h => absurd h List.not_mem_nil, fun _ h => absurd h List.not_mem_nil,
    fun _ h => absurd h List.not_mem_nil⟩

lemma Written.addToken {word token : String} {part next : Part} (h : part.Written)
    (hadd : part.addToken word token = .ok next) : next.Written := by
  rw [Part.addToken] at hadd
  split at hadd
  · split at hadd
    · cases hadd
    · cases hadd
      exact ⟨h.asks, h.offers, h.readable⟩
  · split at hadd
    · cases hadd
    · next f hf =>
      have hreadable := Feature.readable_of_parse? hf
      split at hadd
      · next hpositive =>
        cases hadd
        refine ⟨h.asks, fun g hg => ?_, fun g hg => ?_⟩
        · rcases List.mem_append.1 hg with hg | hg
          · exact h.offers g hg
          · rw [List.mem_singleton.1 hg]
            exact hpositive
        · rw [features, ← List.append_assoc] at hg
          rcases List.mem_append.1 hg with hg | hg
          · exact h.readable g hg
          · rw [List.mem_singleton.1 hg]
            exact hreadable
      · next hnegative =>
        cases hadd
        refine ⟨fun g hg => ?_, h.offers, fun g hg => ?_⟩
        · rcases List.mem_append.1 hg with hg | hg
          · exact h.asks g hg
          · rw [List.mem_singleton.1 hg]
            exact Bool.eq_false_iff.2 hnegative
        · simp only [features, List.mem_append, List.mem_singleton] at hg
          rcases hg with (hg | rfl) | hg
          · exact h.readable g (List.mem_append_left _ hg)
          · exact hreadable
          · exact h.readable g (List.mem_append_right _ hg)

lemma Written.addTokens {word : String} {seen tokens : List String} {part next : Part}
    (h : part.Written) (hadd : part.addTokens word seen tokens = .ok next) : next.Written := by
  induction tokens generalizing seen part with
  | nil =>
    cases hadd
    exact h
  | cons token tokens ih =>
    rw [Part.addTokens] at hadd
    split at hadd
    · cases hadd
    · split at hadd
      · cases hadd
      · next added hadded => exact ih (h.addToken hadded) hadd

lemma written_of_ofGroup {word : String} {group : List Char} {part : Part}
    (h : ofGroup word group = .ok part) : part.Written := by
  rw [ofGroup] at h
  split at h
  · cases h
  · exact written_empty.addTokens h

end Part

lemma Entry.written_of_readParts {word : String} {groups : List (List Char)} {parts : List Part}
    (h : readParts word groups = .ok parts) : ∀ part ∈ parts, part.Written := by
  induction groups generalizing parts with
  | nil =>
    cases h
    exact fun _ hpart => absurd hpart List.not_mem_nil
  | cons group groups ih =>
    rw [readParts] at h
    split at h
    · cases h
    · next first hfirst =>
      split at h
      · cases h
      · next rest hrest =>
        cases h
        intro part hpart
        rcases List.mem_cons.1 hpart with rfl | hpart
        · exact Part.written_of_ofGroup hfirst
        · exact ih hrest part hpart

lemma Entry.written_of_ofLine {number : Nat} {line : List Char} {entry : Entry}
    (h : ofLine number line = .ok entry) : ∀ part ∈ entry.parts, part.Written := by
  rw [ofLine] at h
  split at h
  · cases h
  · dsimp only at h
    split at h
    · cases h
    · split at h
      · cases h
      · next parts hparts =>
        cases h
        exact written_of_readParts hparts

/-- All parts of the entries have been read. -/
def Written (entries : List Entry) : Prop := ∀ entry ∈ entries, ∀ part ∈ entry.parts, part.Written

lemma Lexicon.written_of_readEntries {lines : List (List Char × Nat)} {entries : List Entry}
    (h : readEntries lines = .ok entries) : Written entries := by
  induction lines generalizing entries with
  | nil =>
    cases h
    exact fun _ hentry => absurd hentry List.not_mem_nil
  | cons line lines ih =>
    rw [readEntries] at h
    split at h
    · split at h
      · cases h
      · next first hfirst =>
        split at h
        · cases h
        · next rest hrest =>
          cases h
          intro entry hentry
          rcases List.mem_cons.1 hentry with rfl | hentry
          · exact Entry.written_of_ofLine hfirst
          · exact ih hrest entry hentry
    · exact ih h

lemma Lexicon.written_of_parse {text : String} {lexicon : Lexicon} (h : parse text = .ok lexicon) :
    Written lexicon.entries := by
  rw [parse] at h
  split at h
  · cases h
  · next entries hentries =>
    rw [entries_of_ofEntries h]
    exact written_of_readEntries hentries

namespace Graph

lemma subset_of_chooseEntries {lexicon : Lexicon} {chosen entries : List Entry}
    {tokens : List String} (h : chooseEntries lexicon chosen tokens = .ok entries)
    (hchosen : chosen ⊆ lexicon.entries) : entries ⊆ lexicon.entries := by
  induction tokens generalizing chosen with
  | nil =>
    cases h
    exact hchosen
  | cons token tokens ih =>
    rw [chooseEntries] at h
    split at h
    · exact ih h hchosen
    · split at h
      · cases h
      · next entry hentry =>
        refine ih h (List.append_subset.2 ⟨hchosen, fun other hother => ?_⟩)
        rw [List.mem_singleton.1 hother]
        exact List.mem_of_find?_eq_some hentry

/-- The graph of all words of a lexicon or of the words of a sentence with it. -/
inductive Spells (lexicon : Lexicon) : Graph → Prop where
  | all : Spells lexicon (.build lexicon)
  | sentence {tokens : List String} {graph : Graph}
    (found : forSentence lexicon tokens = .ok graph) : Spells lexicon graph

lemma exists_of_forSentence {lexicon : Lexicon} {tokens : List String} {graph : Graph}
    (found : forSentence lexicon tokens = .ok graph) :
    ∃ entries, chooseEntries lexicon [] tokens = .ok entries ∧ graph = ofEntries entries := by
  rw [forSentence] at found
  cases hchosen : chooseEntries lexicon [] tokens with
  | error cause =>
    rw [hchosen] at found
    cases found
  | ok entries =>
    rw [hchosen] at found
    cases found
    exact ⟨entries, rfl, rfl⟩

lemma Spells.exists_entries {lexicon : Lexicon} {graph : Graph} (h : graph.Spells lexicon) :
    ∃ entries, graph = ofEntries entries ∧ entries ⊆ lexicon.entries := by
  cases h with
  | all => exact ⟨lexicon.entries, rfl, List.Subset.refl _⟩
  | sentence found =>
    obtain ⟨entries, chosen, rfl⟩ := exists_of_forSentence found
    exact ⟨entries, rfl, subset_of_chooseEntries chosen (List.nil_subset _)⟩

variable {entries : List Entry} (written : Written entries)
include written

lemma readable_of_mem_partFeatures {f : Feature} (h : f ∈ partFeatures entries) : f.Readable := by
  obtain ⟨entry, hentry, part, hpart, hf⟩ := mem_partFeatures.1 h
  exact (written entry hentry part hpart).readable f hf

/-- A feature of a word part is the one at its node. -/
lemma feature_idxOf {f : Feature} (h : f ∈ partFeatures entries) : ((ofEntries entries).feature
    (((nodeFeatures entries).map Feature.text).idxOf f.text)).feature = f := by
  obtain ⟨g, hg, htext, hget⟩ := getElem?_idxOf h
  rw [feature_eq_of_getElem? hget]
  exact (readable_of_mem_partFeatures written hg).eq (readable_of_mem_partFeatures written h) htext

/-- What a word part asks for comes before what it offers. -/
lemma features_ofEntries (part : EntryId) :
    ∃ asked offered, ((ofEntries entries).entry part).features = asked ++ offered ∧
      (∀ id ∈ asked, ((ofEntries entries).feature id).feature.isPositive = false) ∧
      ∀ id ∈ offered, ((ofEntries entries).feature id).feature.isPositive = true := by
  rcases entry_ofEntries entries part with hnone | ⟨entry, hentry, hpart, hfeatures⟩
  · rw [hnone]
    exact ⟨[], [], rfl, fun _ h => absurd h List.not_mem_nil, fun _ h => absurd h List.not_mem_nil⟩
  · have hwritten := written entry hentry _ hpart
    have mem_all : ∀ f ∈ ((ofEntries entries).entry part).part.features,
        f ∈ partFeatures entries := fun f hf => mem_partFeatures.2 ⟨entry, hentry, _, hpart, hf⟩
    rw [Part.features, List.map_append] at hfeatures
    refine ⟨_, _, hfeatures, fun id hid => ?_, fun id hid => ?_⟩
    · obtain ⟨f, hf, rfl⟩ := List.mem_map.1 hid
      rw [feature_idxOf written (mem_all f (List.mem_append_left _ hf))]
      exact hwritten.asks f hf
    · obtain ⟨f, hf, rfl⟩ := List.mem_map.1 hid
      rw [feature_idxOf written (mem_all f (List.mem_append_right _ hf))]
      exact hwritten.offers f hf

end Graph

end MergeGrammar
