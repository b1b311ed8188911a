import MergeGrammar.Decimal.Numeral
import MergeGrammar.Text.Blank
import MergeGrammar.Text.WordCharacter

/-!
# Log levels

A threshold says which levels of the log are shown. It can be set by rules between commas: a level
by itself is about every program, a name followed by an equals sign and a level is about the
programs whose names start like that, and a name by itself shows all levels of these programs.
`LogThreshold.ofSetting?` reads such a setting for this program.
-/

namespace MergeGrammar

/-- How much attention a log line asks for. -/
inductive LogLevel where
  | error
  | warn
  | info
  | debug
  | trace
deriving DecidableEq, Repr

namespace LogLevel

def all : List LogLevel := [error, warn, info, debug, trace]

def name : LogLevel → String
  | error => "ERROR"
  | warn => "WARN"
  | info => "INFO"
  | debug => "DEBUG"
  | trace => "TRACE"

def detail : LogLevel → Nat
  | error => 1
  | warn => 2
  | info => 3
  | debug => 4
  | trace => 5

end LogLevel

/-- The number of levels that are shown, from none to all five. -/
structure LogThreshold where
  detail : Nat
deriving DecidableEq, Repr

namespace LogThreshold

def off : LogThreshold := ⟨0⟩

def upTo (level : LogLevel) : LogThreshold := ⟨level.detail⟩

def shows (threshold : LogThreshold) (level : LogLevel) : Bool :=
  decide (level.detail ≤ threshold.detail)

/-- Whether the lines of every event may be shown, and not only warnings. -/
def wantsAll (threshold : LogThreshold) : Bool := threshold.shows .debug

def ofNumber? (n : Nat) : Option LogThreshold :=
  if n ≤ LogLevel.all.length then some ⟨n⟩ else none

/-- The threshold of a level name in any case, or of `off`. -/
def ofName? (name : List Char) : Option LogThreshold :=
  let capitals := String.ofList (name.map Char.toUpper)
  if capitals == "OFF" then some off
  else (LogLevel.all.find? (·.name == capitals)).map upTo

/-- The threshold of a number of levels or of a level name. -/
def ofLevel? (text : List Char) : Option LogThreshold :=
  match Decimal.numeral? text with
  | some n => ofNumber? n
  | none => ofName? text

end LogThreshold

/-- What a log setting shows of the programs whose names start in a certain way. -/
structure LogRule where
  /-- The start of the names, empty if the rule is about every program. -/
  target : List Char
  threshold : LogThreshold
deriving DecidableEq, Repr

namespace LogRule

/-- The name by which rules are about this program. -/
def programName : List Char := "minimerge".toList

def isAboutProgram (rule : LogRule) : Bool := rule.target.isPrefixOf programName

/-- The characters with which a rule can start. -/
def isOpening (c : Char) : Bool := Text.isWordCharacter c || c == '-' || c == ':'

/-- Reads a rule whose first character is in order. Blanks around a rule with an equals sign and
square brackets are refused. A missing level stands for all of them. -/
def readOpened? (text : List Char) : Option LogRule :=
  if text.contains '[' then none
  else if text.contains '=' then
    let target := text.takeWhile (· != '=')
    let level := text.drop (target.length + 1)
    if Text.trim text != text then none
    else if level.isEmpty then some ⟨target, .upTo .trace⟩
    else (LogThreshold.ofLevel? level).map (⟨target, ·⟩)
  else
    match LogThreshold.ofLevel? text with
    | some threshold => some ⟨[], threshold⟩
    | none => some ⟨text, .upTo .trace⟩

def read? (text : List Char) : Option LogRule :=
  match Text.trim text with
  | [] => none
  | c :: _ => if isOpening c then readOpened? text else none

/-- The rule with the longer target, and the later one of two equally long targets. -/
def stronger (best : Option LogRule) (rule : LogRule) : Option LogRule :=
  match best with
  | none => some rule
  | some b => if rule.target.length < b.target.length then some b else some rule

/-- Of several rules, the one that decides what is shown of this program. -/
def governing (rules : List LogRule) : Option LogRule :=
  (rules.filter isAboutProgram).foldl stronger none

end LogRule

/-- The threshold of a setting, which is refused if one of its rules is. A setting without rules
shows errors, and one whose rules are all about other programs shows nothing. -/
def LogThreshold.ofSetting? (setting : String) : Option LogThreshold :=
  let texts := (Text.pieces (· == ',') setting.toList).filter fun text => !text.isEmpty
  (texts.mapM LogRule.read?).map fun rules =>
    if rules.isEmpty then upTo .error
    else ((LogRule.governing rules).map LogRule.threshold).getD off

end MergeGrammar
