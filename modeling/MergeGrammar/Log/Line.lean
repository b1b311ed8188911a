import MergeGrammar.Log.Threshold
import MergeGrammar.Session

/-!
# Log lines

Events are written to the log as a level, a message and fields.
-/

namespace MergeGrammar

structure LogLine where
  level : LogLevel
  text : String
deriving DecidableEq, Repr

namespace LogLine

def render (line : LogLine) : String := line.level.name ++ " " ++ line.text ++ "\n"

end LogLine

def fields (message : String) (items : List (String × String)) : String :=
  " ".intercalate (message :: items.map fun (name, value) => name ++ "=" ++ value)

def quoted (text : String) : String := "\"" ++ text ++ "\""

def optionText : Option Nat → String
  | none => "None"
  | some n => "Some(" ++ toString n ++ ")"

def Licence.text : Licence → String
  | .merge head arg =>
    "Merge \x7b head: " ++ toString head ++ ", arg: " ++ toString arg ++ " \x7d"
  | .adjunction host adjunct =>
    "Adjunction \x7b host: " ++ toString host ++ ", adjunct: " ++ toString adjunct ++ " \x7d"

def Limit.text : Limit → String
  | .routes => "route limit reached"
  | .profile => "scope profile is full"

/-- The log line of an event, in which routes are written as arrows. -/
def Event.line (graph : Graph) (derivations : Array Derivation) (event : Event) : LogLine :=
  let route (id : RouteId) : String := (derivations.getD id default).arrows graph
  match event with
  | .started tokens policy =>
    ⟨.debug, fields "starting sentence" [("tokens", toString tokens), ("policy", quoted policy)]⟩
  | .licensed feature licence =>
    ⟨.debug, fields "licensed"
      [("feature", (graph.feature feature).text), ("licence", licence.text)]⟩
  | .joined (.merge head arg) =>
    ⟨.debug, fields "merge edge" [("head", toString head), ("arg", toString arg)]⟩
  | .joined (.adjunction host adjunct) =>
    ⟨.debug, fields "adjunction edge" [("host", toString host), ("adjunct", toString adjunct)]⟩
  | .climbing signal id =>
    ⟨.trace, fields "walking routes up" [("signal", toString signal), ("route", route id)]⟩
  | .disagreeing adjunct host =>
    ⟨.trace, fields "adjuncts disagree" [("adjunct", route adjunct), ("host", route host)]⟩
  | .overlapping base other =>
    ⟨.trace, fields "routes overlap" [("base", base.text), ("other", other.text)]⟩
  | .combined relation base other new =>
    ⟨.trace, fields "new combination" [("relation", relation.name), ("base", RouteId.text base),
      ("other", RouteId.text other), ("new", route new)]⟩
  | .dropping limit amount =>
    ⟨.warn, fields "dropping routes; results may be incomplete"
      [("reason", quoted limit.text), ("limit", toString amount)]⟩
  | .stepped part previous earlier merges adjunctions routes passes =>
    ⟨.debug, fields "step" [("signal", toString part.signal),
      ("word", (graph.entry part.entry).name), ("previous", optionText previous),
      ("earlier", toString earlier), ("merges", toString merges),
      ("adjunctions", toString adjunctions), ("routes", toString routes),
      ("passes", toString passes)]⟩

/-- The log lines of a session that made the given steps. -/
def Session.logLines (session : Session) (steps : List StepResult) : List LogLine :=
  let started := Event.started session.reading.tokens.length session.options.policy.name
  (started :: steps.flatMap StepResult.events).map (Event.line session.graph session.derivations)

end MergeGrammar
