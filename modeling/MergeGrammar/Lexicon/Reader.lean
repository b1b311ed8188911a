import MergeGrammar.Lexicon.Basic

/-!
# Written lexicons

A lexicon is written one word to a line: the word, a double colon and the feature groups of its
parts between commas. Blank lines and lines that start with `#` are left out. In a group, a token
that starts with `cat:` is a category and any other token is a feature. Faults are found in
reading order, and a word that stands on two lines only after every line has been read.
-/

namespace MergeGrammar

namespace Part

/-- Adds a category or feature token behind those read so far. -/
def addToken (word : String) (part : Part) (token : String) : Except LexiconError Part :=
  if Feature.categoryMark.isPrefixOf token.toList then
    if token.toList = Feature.categoryMark then .error (.invalidFeature word token)
    else .ok { part with categories := part.categories ++ [token] }
  else
    match Feature.parse? token with
    | none => .error (.invalidFeature word token)
    | some feature =>
      if feature.isPositive then .ok { part with positive := part.positive ++ [feature] }
      else .ok { part with negative := part.negative ++ [feature] }

/-- Adds tokens in order. A token that was seen before is refused. -/
def addTokens (word : String) (seen : List String) (part : Part) :
    List String → Except LexiconError Part
  | [] => .ok part
  | token :: tokens =>
    if token ∈ seen then .error (.duplicateFeature word token)
    else
      match part.addToken word token with
      | .error fault => .error fault
      | .ok part => part.addTokens word (token :: seen) tokens

def ofGroup (word : String) (group : List Char) : Except LexiconError Part :=
  match (Text.words group).map String.ofList with
  | [] => .error (.emptyGroup word)
  | tokens => Part.empty.addTokens word [] tokens

/-- Reads the feature group of one word part. -/
def parse (word group : String) : Except LexiconError Part := ofGroup word group.toList

end Part

namespace Entry

def readParts (word : String) : List (List Char) → Except LexiconError (List Part)
  | [] => .ok []
  | group :: groups =>
    match Part.ofGroup word group with
    | .error fault => .error fault
    | .ok part =>
      match readParts word groups with
      | .error fault => .error fault
      | .ok parts => .ok (part :: parts)

def ofLine (number : Nat) (line : List Char) : Except LexiconError Entry :=
  match Text.splitDoubleColon line with
  | none => .error (.malformedLine number)
  | some (before, groups) =>
    let word := Text.trim before
    if word.isEmpty || word.any Text.isBlank then .error (.emptyWord number)
    else
      match readParts (String.ofList word) (Text.pieces (· == ',') groups) with
      | .error fault => .error fault
      | .ok parts => .ok { word := String.ofList word, parts }

end Entry

namespace Lexicon

def isEntryLine : List Char → Bool
  | [] => false
  | '#' :: _ => false
  | _ => true

def readEntries : List (List Char × Nat) → Except LexiconError (List Entry)
  | [] => .ok []
  | (line, number) :: lines =>
    if isEntryLine (Text.trim line) then
      match Entry.ofLine number (Text.trim line) with
      | .error fault => .error fault
      | .ok entry =>
        match readEntries lines with
        | .error fault => .error fault
        | .ok entries => .ok (entry :: entries)
    else readEntries lines

/-- Reads a written lexicon. Lines are numbered from one. -/
def parse (text : String) : Except LexiconError Lexicon :=
  match readEntries ((Text.lines text.toList).zipIdx 1) with
  | .error fault => .error fault
  | .ok entries => ofEntries entries

end Lexicon

end MergeGrammar
