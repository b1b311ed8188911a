import MergeGrammar.Lexicon.Basic

/-!
# Feature graphs

The graph of a lexicon, or of the words of one sentence, has a node for every word part, for every
feature text and for every category. Word parts that carry the same feature text share its node, so
one positive feature announces any number of word parts to the negative features it satisfies, its
partners. The parts of a word are consecutive entries.
-/

namespace MergeGrammar

abbrev EntryId := Nat

abbrev FeatureId := Nat

abbrev CategoryId := Nat

/-- The two ways in which a word part can be licensed to combine with another one. -/
inductive MergeKind where
  /-- A head takes an argument. -/
  | merge
  /-- A host takes an adjunct. -/
  | pairMerge
deriving DecidableEq, Repr

/-- What a negative feature leads to. The two directed signs lead to nothing. -/
def Sign.mergeKind : Sign → Option MergeKind
  | select => some .merge
  | adjoin => some .pairMerge
  | left => none
  | right => none

/-- What a feature leads to when a partner satisfies it. -/
def Feature.mergeKind (f : Feature) : Option MergeKind := f.sign.bind Sign.mergeKind

inductive Flag where
  | firstPart
  | lastPart
  | freeToMove
  | selects
  | licenses
deriving DecidableEq, Repr

namespace Flag

def all : List Flag := [firstPart, lastPart, freeToMove, selects, licenses]

def name : Flag → String
  | firstPart => "FIRST_PART"
  | lastPart => "LAST_PART"
  | freeToMove => "FREE_TO_MOVE"
  | selects => "SELECTS"
  | licenses => "LICENSES"

def weight : Flag → Nat
  | firstPart => 1
  | lastPart => 2
  | freeToMove => 4
  | selects => 8
  | licenses => 16

end Flag

/-- A word part as a node of the graph. -/
structure LexicalEntry where
  word : String
  /-- The number of parts of the word before this one. -/
  index : Nat
  part : Part
  /-- The parts of the word in order, this one included. -/
  siblings : List EntryId
  categories : List CategoryId
  /-- The nodes of the features of the part, in their order there. -/
  features : List FeatureId
deriving Repr

namespace LexicalEntry

instance : Inhabited LexicalEntry := ⟨⟨"", 0, Part.empty, [], [], []⟩⟩

/-- The name of the word part, primed once for each part before it. -/
def name (entry : LexicalEntry) : String := partName entry.word entry.index

def isFirstPart (entry : LexicalEntry) : Bool := entry.index == 0

def isLastPart (entry : LexicalEntry) : Bool := entry.index + 1 == entry.siblings.length

/-- Whether the word part may attach at a distance. -/
def isFree (entry : LexicalEntry) : Bool := entry.part.features.any Feature.freesMovement

def hasSign (entry : LexicalEntry) (sign : Sign) : Bool :=
  entry.part.features.any (·.sign == some sign)

def hasFlag (entry : LexicalEntry) : Flag → Bool
  | .firstPart => entry.isFirstPart
  | .lastPart => entry.isLastPart
  | .freeToMove => entry.isFree
  | .selects => entry.hasSign .select
  | .licenses => entry.hasSign .adjoin

def flags (entry : LexicalEntry) : List Flag := Flag.all.filter entry.hasFlag

/-- The flags of a word part as one number. -/
def flagNumber (entry : LexicalEntry) : Nat :=
  entry.flags.foldl (fun number flag => number + flag.weight) 0

/-- The part of the word after this one. -/
def nextPart? (entry : LexicalEntry) : Option EntryId := entry.siblings[entry.index + 1]?

end LexicalEntry

/-- A feature text as a node of the graph. -/
structure FeatureNode where
  feature : Feature
  /-- For a positive feature, the negative features it satisfies, in ascending order. -/
  partners : List FeatureId
  /-- For a negative feature, what its hosts are licensed for. -/
  target : Option MergeKind
deriving Repr

namespace FeatureNode

instance : Inhabited FeatureNode := ⟨⟨⟨none, "", []⟩, [], none⟩⟩

def text (node : FeatureNode) : String := node.feature.text

end FeatureNode

/-- The word parts, features and categories of a lexicon. -/
structure Graph where
  entries : Array LexicalEntry
  features : Array FeatureNode
  categories : Array String
deriving Repr

namespace Graph

instance : Inhabited Graph := ⟨⟨#[], #[], #[]⟩⟩

/-- Keeps the first of the items that share a key, in order. -/
def distinctBy {α : Type} (key : α → String) (items : List α) : List α :=
  items.foldl
    (fun kept item => if kept.any (key · == key item) then kept else kept ++ [item]) []

/-- The nodes of some features. The partners of a feature are the nodes that lead to a merge and
that the feature satisfies. It is none of them itself, since no feature is both positive and
negative. -/
def wire (features : List Feature) : List FeatureNode :=
  features.map fun feature =>
    { feature
      partners := features.zipIdx.filterMap fun (other, id) =>
        if other.mergeKind.isSome && feature.satisfies other then some id else none
      target := feature.mergeKind }

/-- The nodes of a word whose first part gets the number `first`. -/
def wordEntries (categories texts : List String) (first : EntryId) (entry : Entry) :
    List LexicalEntry :=
  entry.parts.zipIdx.map fun (part, index) =>
    { word := entry.word
      index
      part
      siblings := List.range' first entry.parts.length
      categories := part.categories.map (categories.idxOf ·)
      features := part.features.map fun feature => texts.idxOf feature.text }

/-- The nodes of several words, whose parts are numbered from `first` on. -/
def lexicalEntries (categories texts : List String) : EntryId → List Entry → List LexicalEntry
  | _, [] => []
  | first, entry :: entries =>
    wordEntries categories texts first entry ++
      lexicalEntries categories texts (first + entry.parts.length) entries

def ofEntries (entries : List Entry) : Graph :=
  let parts := entries.flatMap Entry.parts
  let categories := distinctBy id (parts.flatMap Part.categories)
  let features := distinctBy Feature.text (parts.flatMap Part.features)
  { entries := (lexicalEntries categories (features.map Feature.text) 0 entries).toArray
    features := (wire features).toArray
    categories := categories.toArray }

def build (lexicon : Lexicon) : Graph := ofEntries lexicon.entries

/-- Adds the entries of the tokens that are not among the chosen ones yet. -/
def chooseEntries (lexicon : Lexicon) (chosen : List Entry) :
    List String → Except SessionError (List Entry)
  | [] => .ok chosen
  | token :: tokens =>
    if chosen.any (·.word == token) then chooseEntries lexicon chosen tokens
    else
      match lexicon.get? token with
      | none => .error (.unknownWord token)
      | some entry => chooseEntries lexicon (chosen ++ [entry]) tokens

/-- The graph of the words of one sentence, in the order in which they first occur. -/
def forSentence (lexicon : Lexicon) (tokens : List String) : Except SessionError Graph :=
  (chooseEntries lexicon [] tokens).map ofEntries

def entry (graph : Graph) (id : EntryId) : LexicalEntry := graph.entries.getD id default

/-- The node of a feature. -/
def feature (graph : Graph) (id : FeatureId) : FeatureNode := graph.features.getD id default

def category (graph : Graph) (id : CategoryId) : String := graph.categories.getD id ""

def lookup (graph : Graph) (word : String) : Option EntryId :=
  graph.entries.findIdx? fun entry => entry.word == word && entry.isFirstPart

end Graph

end MergeGrammar
