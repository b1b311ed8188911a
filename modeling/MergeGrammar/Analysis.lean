import MergeGrammar.Lexicon.Builtin
import MergeGrammar.Session

/-!
# Analysing a sentence

A sentence is analysed at one go: its words are looked up, all its word parts are stepped through
and the complete derivations are drawn, best first. The account of an analysis also tells what each
step did.
-/

namespace MergeGrammar

structure Parse where
  tree : String
  arrows : String
  cost : Float
  size : Nat
  weight : Nat

structure StepSummary where
  signal : Signal
  word : String
  passes : Nat
  merges : List (Signal × Signal)
  adjunctions : List (Signal × Signal)
  routesAdded : Nat
  capped : Nat
  /-- The first routes of the step, as arrows. -/
  samples : List String
deriving DecidableEq, Repr

structure Analysis where
  sentence : String
  parses : List Parse
  policy : Policy
  wordParts : List String
  steps : List StepSummary
  categories : List (String × SignalSet)
  routes : Nat
  capped : Nat
  complete : Nat

namespace Session

/-- The session of a sentence with the words of a lexicon. -/
def ofSentence (lexicon : Lexicon) (options : Options) (sentence : String) :
    Except SessionError Session :=
  match Graph.forSentence lexicon (Text.tokens sentence) with
  | .error cause => .error cause
  | .ok graph => start graph (Text.tokens sentence) options

def partName (session : Session) (part : WordPart) : String :=
  (session.graph.entry part.entry).name

end Session

namespace Analysis

/-- How many routes a summary shows. -/
def sampleCount : Nat := 8

def parseOf (session : Session) (derivations : Array Derivation) (ranked : RankedRoute) : Parse :=
  let derivation := derivations.getD ranked.id default
  { tree := (derivation.tree session.graph session.options.treeStyle).text
    arrows := derivation.arrows session.graph
    cost := ranked.cost
    size := ranked.size
    weight := ranked.weight }

def summaryOf (session : Session) (derivations : Array Derivation) (step : StepResult) :
    StepSummary where
  signal := step.part.signal
  word := session.partName step.part
  passes := step.passes
  merges := step.merges
  adjunctions := step.adjunctions
  routesAdded := step.routes.length
  capped := step.capped
  samples := (step.routes.take sampleCount).map fun id =>
    (derivations.getD id default).arrows session.graph

/-- The account of a session that has read its sentence in the given steps. -/
def ofSession (sentence : String) (session : Session) (steps : List StepResult) :
    Except SessionError Analysis :=
  session.bestRoutes.map fun ranked =>
    let derivations := session.derivations
    { sentence
      parses := ranked.map (parseOf session derivations)
      policy := session.options.policy
      wordParts := session.reading.wordParts.toList.map fun part =>
        session.partName part ++ "-" ++ toString part.signal
      steps := steps.map (summaryOf session derivations)
      categories := session.activeCategories
      routes := session.routeCount
      capped := session.capped
      complete := ranked.length }

/-- Analyses a sentence, and gives the session with its steps as well. -/
def trace (lexicon : Lexicon) (options : Options) (tracing : Bool) (sentence : String) :
    Except SessionError (Analysis × Session × List StepResult) :=
  match Session.ofSentence lexicon options sentence with
  | .error cause => .error cause
  | .ok session =>
    match session.runTracing tracing with
    | (.error cause, _) => .error cause
    | (.ok steps, session) =>
      (ofSession sentence session steps).map fun analysis => (analysis, session, steps)

end Analysis

def analyse (lexicon : Lexicon) (options : Options) (sentence : String) :
    Except SessionError Analysis :=
  (Analysis.trace lexicon options false sentence).map Prod.fst

/-- Analyses a sentence with the built-in lexicon and the standard options. -/
def analyseBuiltin (sentence : String) : Except AnalysisError Analysis :=
  match Lexicon.builtin with
  | .error cause => .error (.lexicon cause)
  | .ok lexicon => (analyse lexicon .standard sentence).mapError .session

end MergeGrammar
