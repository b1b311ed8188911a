import MergeGrammar.Error
import MergeGrammar.Feature

/-!
# Lexicons

A word has one or more parts in order, and each part has its own categories and features. A
lexicon is a list of entries in which no word stands twice, no entry lacks parts and no part repeats
a feature; `firstFault` finds the first breach of these rules in reading order.
-/

namespace MergeGrammar

/-- The categories and features of one word part. -/
structure Part where
  /-- Category tags with their mark, such as `cat:NP`. -/
  categories : List String
  negative : List Feature
  positive : List Feature
deriving DecidableEq, Repr

namespace Part

def empty : Part := ⟨[], [], []⟩

/-- What the part asks for, then what it offers. -/
def features (part : Part) : List Feature := part.negative ++ part.positive

end Part

structure Entry where
  word : String
  parts : List Part
deriving DecidableEq, Repr

/-- The name of a word part: the word with one prime for each part before it. -/
def partName (word : String) (index : Nat) : String :=
  word ++ String.ofList (List.replicate index '\'')

/-- The first text of a list that stands in `seen` or earlier in the list. -/
def firstRepeat (seen : List String) : List String → Option String
  | [] => none
  | text :: texts => if text ∈ seen then some text else firstRepeat (text :: seen) texts

/-- The first feature of a part that repeats a category or an earlier feature. -/
def Part.firstRepeat (part : Part) : Option String :=
  MergeGrammar.firstRepeat part.categories (part.features.map Feature.text)

def Entry.fault (entry : Entry) : Option LexiconError :=
  if entry.parts.isEmpty then some (.emptyGroup entry.word)
  else (entry.parts.findSome? Part.firstRepeat).map (.duplicateFeature entry.word)

/-- What is wrong with a list of entries, found at the first entry that is faulty by itself or whose
word has an entry already. -/
def firstFault (seen : List String) : List Entry → Option LexiconError
  | [] => none
  | entry :: entries =>
    match entry.fault with
    | some fault => some fault
    | none =>
      if entry.word ∈ seen then some (.duplicateWord entry.word)
      else firstFault (entry.word :: seen) entries

/-- A list of entries without a fault. -/
structure Lexicon where
  entries : List Entry
  faultless : firstFault [] entries = none

namespace Lexicon

def ofEntries (entries : List Entry) : Except LexiconError Lexicon :=
  match h : firstFault [] entries with
  | none => .ok ⟨entries, h⟩
  | some fault => .error fault

theorem entries_of_ofEntries {entries : List Entry} {lexicon : Lexicon}
    (h : ofEntries entries = .ok lexicon) : lexicon.entries = entries := by
  unfold ofEntries at h
  split at h
  · cases h; rfl
  · cases h

def get? (lexicon : Lexicon) (word : String) : Option Entry :=
  lexicon.entries.find? (·.word == word)

def size (lexicon : Lexicon) : Nat := lexicon.entries.length

def isEmpty (lexicon : Lexicon) : Bool := lexicon.entries.isEmpty

end Lexicon

end MergeGrammar
