import MergeGrammar.Text.Blank
import MergeGrammar.Text.WordCharacter

/-!
# Features

A feature has a name and a set of alternative values, none meaning any value. Without a sign it is
positive, something a word part offers; with a sign it is negative, something a word part asks for.
Its written form is the sign, the name and, after a colon, the values between bars.
-/

namespace MergeGrammar

/-- What a negative feature asks for. -/
inductive Sign where
  /-- An argument. -/
  | select
  /-- Adjuncts. -/
  | adjoin
  /-- An argument on the left, which no combination answers. -/
  | left
  /-- An argument on the right, which no combination answers. -/
  | right
deriving DecidableEq, Repr

namespace Sign

def toChar : Sign → Char
  | select => '='
  | adjoin => '-'
  | left => '<'
  | right => '>'

def ofChar? : Char → Option Sign
  | '=' => some select
  | '-' => some adjoin
  | '<' => some left
  | '>' => some right
  | _ => none

theorem ofChar?_toChar (sign : Sign) : ofChar? sign.toChar = some sign := by
  cases sign <;> rfl

theorem eq_toChar_of_ofChar? {c : Char} {sign : Sign} (h : ofChar? c = some sign) :
    c = sign.toChar := by
  unfold ofChar? at h
  split at h <;> cases h <;> rfl

end Sign

structure Feature where
  /-- Nothing for a positive feature. -/
  sign : Option Sign
  name : String
  /-- Alternative values. The empty list stands for any value. -/
  values : List String
deriving DecidableEq, Repr

namespace Feature

/-- Whether a word part offers this feature. -/
def isPositive (f : Feature) : Bool := f.sign.isNone

def chars (f : Feature) : List Char :=
  (f.sign.map Sign.toChar).toList ++ f.name.toList ++
    if f.values.isEmpty then [] else ':' :: ['|'].intercalate (f.values.map String.toList)

def text (f : Feature) : String := String.ofList f.chars

/-- Whether two features have a value in common. A feature without values takes any. -/
def valuesMatch (f g : Feature) : Bool :=
  f.values.isEmpty || g.values.isEmpty || f.values.any (g.values.contains ·)

/-- Whether the positive feature `f` is what the negative feature `g` asks for. -/
def satisfies (f g : Feature) : Bool :=
  f.isPositive && !g.isPositive && f.name == g.name && f.valuesMatch g

/-- The feature name that lets a word part attach at a distance. -/
def moverName : String := "moves"

/-- Whether a word part with this feature may attach at a distance. -/
def freesMovement (f : Feature) : Bool := f.isPositive && f.name == moverName

/-- The start of a category tag, which is no feature. -/
def categoryMark : List Char := ['c', 'a', 't', ':']

/-- The characters that may stand in a feature name. -/
def isNameCharacter (c : Char) : Bool := c != ':' && !Text.isBlank c

def splitSign : List Char → Option Sign × List Char
  | [] => (none, [])
  | c :: rest =>
    match Sign.ofChar? c with
    | some sign => (some sign, rest)
    | none => (none, c :: rest)

/-- The values written after a feature name: none if nothing follows the name, else the nonempty
alternatives between the bars behind a colon. -/
def readValues? : List Char → Option (List String)
  | [] => some []
  | ':' :: text =>
    let alternatives := Text.pieces (· == '|') text
    if text.any Text.isBlank || alternatives.any List.isEmpty then none
    else some (alternatives.map String.ofList)
  | _ => none

/-- Reads a written feature. A category tag is no feature. -/
def ofChars? (token : List Char) : Option Feature :=
  if categoryMark.isPrefixOf token then none
  else
    let (sign, rest) := splitSign token
    match rest with
    | [] => none
    | c :: _ =>
      if Text.isWordCharacter c && isNameCharacter c then
        (readValues? (rest.dropWhile isNameCharacter)).map fun values =>
          { sign, name := String.ofList (rest.takeWhile isNameCharacter), values }
      else none

/-- Reads a feature token such as `=N:nom|acc`. -/
def parse? (token : String) : Option Feature := ofChars? token.toList

end Feature

end MergeGrammar
