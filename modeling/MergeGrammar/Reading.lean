import MergeGrammar.Graph
import MergeGrammar.SignalSet

/-!
# Reading a sentence

A sentence is read word part by word part: each token expands to the parts of its word, and every
part gets the next signal. A reading keeps the parts read so far, the last of which is the
current one, until a further part is asked for behind the end.
-/

namespace MergeGrammar

/-- One word part at its place in the sentence. -/
structure WordPart where
  signal : Signal
  entry : EntryId
  /-- The number of the token the part belongs to, counted from one. -/
  wordIndex : Nat
deriving DecidableEq, Repr

instance : Inhabited WordPart := ⟨⟨0, 0, 0⟩⟩

inductive Progress where
  | idle
  | advancing
  | complete
deriving DecidableEq, Repr

def Progress.name : Progress → String
  | idle => "Idle"
  | advancing => "Advancing"
  | complete => "Complete"

/-- A sentence with the word parts read so far. -/
structure Reading where
  /-- The first part of each word of the sentence. -/
  tokens : List EntryId
  /-- The number of tokens whose parts have been entered. -/
  entered : Nat
  wordParts : Array WordPart
  /-- A part was asked for behind the end. -/
  exhausted : Bool
deriving DecidableEq, Repr

namespace Reading

def start (tokens : List EntryId) : Reading := ⟨tokens, 0, #[], false⟩

def reset (reading : Reading) : Reading := start reading.tokens

/-- The part read last. -/
def current? (reading : Reading) : Option WordPart :=
  if reading.exhausted then none else reading.wordParts.back?

/-- The part read before the current one. -/
def closest? (reading : Reading) : Option WordPart :=
  reading.current?.bind fun _ => reading.wordParts.pop.back?

def earlier (reading : Reading) : Array WordPart :=
  if reading.current?.isSome then reading.wordParts.pop else #[]

/-- Starts over with the first part of the first token. -/
def first (reading : Reading) : Option WordPart × Reading :=
  match reading.tokens with
  | [] => (none, reading.reset)
  | entry :: _ =>
    let part : WordPart := ⟨1, entry, 1⟩
    (some part, { reading.reset with entered := 1, wordParts := #[part] })

/-- Reads the next part of the current word, or else the first part of the next token. Without a
current part nothing happens. -/
def next (graph : Graph) (reading : Reading) : Option WordPart × Reading :=
  match reading.current? with
  | none => (none, reading)
  | some current =>
    match (graph.entry current.entry).nextPart? with
    | some entry =>
      let part : WordPart := ⟨current.signal + 1, entry, current.wordIndex⟩
      (some part, { reading with wordParts := reading.wordParts.push part })
    | none =>
      match reading.tokens[reading.entered]? with
      | some entry =>
        let part : WordPart := ⟨current.signal + 1, entry, current.wordIndex + 1⟩
        (some part,
          { reading with entered := reading.entered + 1, wordParts := reading.wordParts.push part })
      | none => (none, { reading with exhausted := true })

def isLast (graph : Graph) (reading : Reading) : Bool :=
  match reading.current? with
  | none => false
  | some current =>
    decide (reading.tokens.length ≤ reading.entered) && (graph.entry current.entry).isLastPart

def progress (graph : Graph) (reading : Reading) : Progress :=
  if reading.wordParts.isEmpty then .idle
  else if reading.exhausted || reading.isLast graph then .complete
  else .advancing

/-- The number of parts the whole sentence expands to. -/
def signalCount (graph : Graph) (reading : Reading) : Nat :=
  reading.tokens.foldl (fun count entry => count + (graph.entry entry).siblings.length) 0

end Reading

end MergeGrammar
