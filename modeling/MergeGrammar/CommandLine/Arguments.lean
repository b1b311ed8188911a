import MergeGrammar.Decimal.Numeral
import MergeGrammar.Options
import MergeGrammar.Text.Blank

/-!
# Command line arguments

Options come before the sentence. The first argument that is no option starts the sentence, which
takes all arguments that follow, and `--` does the same for a sentence that starts with a dash. An
option with a value takes it from the next argument or from its own behind an equals sign.
-/

namespace MergeGrammar.CommandLine

structure Request where
  sentence : Option String
  sentencesFile : Option String
  lexicon : Option String
  options : Options
  exporting : Bool
  /-- Nothing if the output decides. -/
  color : Option Bool
  /-- The number of steps by which the log is more detailed than its standard. -/
  verbosity : Nat
deriving DecidableEq, Repr

def Request.standard : Request := ⟨none, none, none, .standard, false, none, 0⟩

inductive Command where
  | showHelp
  | showVersion
  | analyse (request : Request)
deriving DecidableEq, Repr

inductive ValuedOption where
  | lexicon
  | sentences
  | policy
  | profileCap
  | maxRoutes
deriving DecidableEq, Repr

namespace ValuedOption

def all : List ValuedOption := [lexicon, sentences, policy, profileCap, maxRoutes]

def name : ValuedOption → String
  | lexicon => "--lexicon"
  | sentences => "--sentences"
  | policy => "--policy"
  | profileCap => "--profile-cap"
  | maxRoutes => "--max-routes"

/-- The other spelling of an option, if it has one. -/
def shortName? : ValuedOption → Option String
  | lexicon => some "-l"
  | sentences => some "-s"
  | _ => none

def valueKind : ValuedOption → String
  | lexicon => "a path"
  | sentences => "a path"
  | policy => "a value"
  | profileCap => "a number"
  | maxRoutes => "a number"

def missingValue (option : ValuedOption) : String :=
  "error: " ++ option.name ++ " expects " ++ option.valueKind

def ofArgument? (argument : String) : Option ValuedOption :=
  all.find? fun option => argument == option.name || some argument == option.shortName?

/-- The start of an argument that holds an option with its value. -/
def mark (option : ValuedOption) : List Char := option.name.toList ++ ['=']

end ValuedOption

/-- A text without the repetitions of `mark` in front of it. The first argument bounds how many. -/
def dropMarks (mark : List Char) : Nat → List Char → List Char
  | 0, text => text
  | fuel + 1, text =>
    if mark.isPrefixOf text then dropMarks mark fuel (text.drop mark.length) else text

/-- The option and the value that one argument holds. -/
def ValuedOption.split? (argument : String) : Option (ValuedOption × String) :=
  let chars := argument.toList
  (all.find? fun option => option.mark.isPrefixOf chars).map fun option =>
    (option, String.ofList (dropMarks option.mark chars.length chars))

/-- A number below 2^64. -/
def count? (text : String) : Option Nat :=
  (Decimal.numeral? text.toList).filter fun n => decide (n < 0x10000000000000000)

def readCount (option : ValuedOption) (value : String) : Except String Nat :=
  match count? value with
  | some n => .ok n
  | none =>
    .error ("error: invalid " ++ option.name ++ " '" ++ value ++
      "' (expected a non-negative integer)")

namespace Request

/-- Takes in the value of an option. A later value replaces an earlier one. -/
def set (request : Request) (option : ValuedOption) (value : String) : Except String Request :=
  match option with
  | .lexicon => .ok { request with lexicon := some value }
  | .sentences => .ok { request with sentencesFile := some value }
  | .policy =>
    match Policy.ofName value with
    | .error cause => .error ("error: " ++ cause)
    | .ok policy => .ok { request with options := { request.options with policy } }
  | .profileCap =>
    (readCount option value).map fun profileCap =>
      { request with options := { request.options with profileCap } }
  | .maxRoutes =>
    (readCount option value).map fun maxRoutes =>
      { request with options := { request.options with maxRoutes } }

/-- Takes in an option without a value. -/
def flag? (request : Request) (argument : String) : Option Request :=
  match argument with
  | "--color" => some { request with color := some true }
  | "--no-color" => some { request with color := some false }
  | "--export" => some { request with exporting := true }
  | "--signal-tree" =>
    some { request with options := { request.options with treeStyle := .signal } }
  | "--no-agreement" =>
    some { request with options := { request.options with checkAgreement := false } }
  | "-v" => some { request with verbosity := max request.verbosity 1 }
  | "-vv" => some { request with verbosity := 2 }
  | _ => none

/-- Takes in the sentence behind a double dash. Blank arguments give no sentence. -/
def withRest (request : Request) (rest : List String) : Request :=
  let sentence := " ".intercalate rest
  if (Text.dropBlanks sentence.toList).isEmpty then request
  else { request with sentence := some sentence }

end Request

def readFrom (request : Request) : List String → Except String Command
  | [] => .ok (.analyse request)
  | argument :: rest =>
    if argument == "-h" || argument == "--help" then .ok .showHelp
    else if argument == "-V" || argument == "--version" then .ok .showVersion
    else
      match request.flag? argument with
      | some request => readFrom request rest
      | none =>
        match ValuedOption.ofArgument? argument with
        | some option =>
          match rest with
          | [] => .error option.missingValue
          | value :: rest =>
            match request.set option value with
            | .error cause => .error cause
            | .ok request => readFrom request rest
        | none =>
          if argument == "--" then .ok (.analyse (request.withRest rest))
          else
            match ValuedOption.split? argument with
            | some (option, value) =>
              match request.set option value with
              | .error cause => .error cause
              | .ok request => readFrom request rest
            | none =>
              if ['-'].isPrefixOf argument.toList then
                .error ("error: unknown option '" ++ argument ++ "'")
              else
                .ok (.analyse
                  { request with sentence := some (" ".intercalate (argument :: rest)) })

/-- What the arguments of the program ask for, or the text for a wrong one. -/
def read (arguments : List String) : Except String Command := readFrom .standard arguments

end MergeGrammar.CommandLine
