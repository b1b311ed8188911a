import MergeGrammar.Derivation.Cost
import MergeGrammar.Search.Climb

/-!
# Sessions

A session analyses one sentence word part by word part. A step activates the next word part, adds
the edges that come from it and searches for derivations until no more are found, so the derivations
of every beginning of the sentence can be looked at. When the sentence has been read, the complete
ones are ranked by cost.
-/

namespace MergeGrammar

structure StepMetrics where
  signal : Signal
  passes : Nat
  merges : Nat
  adjunctions : Nat
  routesAdded : Nat
  capped : Nat
  attempts : Nat
deriving DecidableEq, Repr

structure RunMetrics where
  steps : List StepMetrics
  routes : Nat
  capped : Nat
deriving DecidableEq, Repr

namespace RunMetrics

def start : RunMetrics := ⟨[], 0, 0⟩

def record (metrics : RunMetrics) (step : StepMetrics) : RunMetrics :=
  ⟨metrics.steps ++ [step], metrics.routes + step.routesAdded, metrics.capped + step.capped⟩

end RunMetrics

structure StepResult where
  part : WordPart
  /-- The licences that gave a new edge, in order. -/
  edges : List Licence
  routes : List RouteId
  passes : Nat
  capped : Nat
  attempts : Nat
  events : List Event

namespace StepResult

/-- New edges from heads to arguments. -/
def merges (result : StepResult) : List (Signal × Signal) :=
  result.edges.filterMap fun
    | .merge head arg => some (head, arg)
    | .adjunction _ _ => none

/-- New edges from hosts to adjuncts. -/
def adjunctions (result : StepResult) : List (Signal × Signal) :=
  result.edges.filterMap fun
    | .merge _ _ => none
    | .adjunction host adjunct => some (host, adjunct)

def metrics (result : StepResult) : StepMetrics where
  signal := result.part.signal
  passes := result.passes
  merges := result.merges.length
  adjunctions := result.adjunctions.length
  routesAdded := result.routes.length
  capped := result.capped
  attempts := result.attempts

end StepResult

/-- The analysis of one sentence as far as it has been read. -/
structure Session where
  graph : Graph
  options : Options
  reading : Reading
  licensing : Licensing
  search : SearchState
  metrics : RunMetrics

structure RankedRoute where
  id : RouteId
  root : Signal
  cost : Float
  size : Nat
  weight : Nat

/-- Cheaper routes come first, then larger and heavier ones, then those with an earlier root and
those found earlier. -/
def RankedRoute.rank (ranked : RankedRoute) : List Int :=
  [totalOrder ranked.cost, -ranked.size, -ranked.weight, ranked.root, ranked.id]

namespace Session

def lookupAll (graph : Graph) : List String → Except SessionError (List EntryId)
  | [] => .ok []
  | token :: tokens =>
    match graph.lookup token with
    | none => .error (.unknownWord token)
    | some entry => (lookupAll graph tokens).map (entry :: ·)

/-- The session of a sentence of which nothing has been read. -/
def ofEntries (graph : Graph) (options : Options) (entries : List EntryId) : Session where
  graph
  options
  reading := .start entries
  licensing := .start graph
  search := .start
  metrics := .start

def start (graph : Graph) (tokens : List String) (options : Options) :
    Except SessionError Session :=
  if tokens.isEmpty then .error .emptySentence
  else (lookupAll graph tokens).map (ofEntries graph options)

/-- Forgets what has been read of the sentence. The next step starts over with its first part. -/
def reset (session : Session) : Session :=
  { session with
    reading := session.reading.reset
    licensing := session.licensing.reset
    search := .start
    metrics := .start }

/-- Reads the next word part: the first one if nothing has been read. -/
def read (session : Session) : Option WordPart × Reading :=
  if session.reading.wordParts.isEmpty then session.reading.first
  else session.reading.next session.graph

/-- Activates a word part that has just been read and extends the derivations with it. -/
def absorb (session : Session) (tracing : Bool) (part : WordPart) : StepResult × Session :=
  let (licensing, licences) := session.licensing.activate session.graph part
  let (search, edges) := session.search.openPart.joinAll (licences.map Prod.snd)
  let setting : Setting := ⟨session.graph, session.options, tracing⟩
  let (climb, passes) := (Climb.start search |>.seed setting part).settle setting
  let result : StepResult :=
    { part
      edges
      routes := climb.added.toList
      passes
      capped := climb.capped
      attempts := climb.attempts
      events := [] }
  let metrics := result.metrics
  let before := licences.map (fun (feature, licence) => Event.licensed feature licence) ++
    edges.map Event.joined
  let after := Event.stepped part (session.reading.closest?.map WordPart.signal)
    session.reading.earlier.size metrics.merges metrics.adjunctions metrics.routesAdded passes
  let events := if tracing then before ++ climb.events.reverse ++ [after] else climb.events.reverse
  ({ result with events },
    { session with
      licensing
      search := climb.state
      metrics := session.metrics.record metrics })

/-- Reads the next word part and extends the derivations with it. With `tracing` every event is
recorded. -/
def stepTracing (session : Session) (tracing : Bool) : Except SessionError StepResult × Session :=
  let (part, reading) := session.read
  let session := { session with reading }
  match part with
  | none => (.error .exhausted, session)
  | some part =>
    let (result, session) := session.absorb tracing part
    (.ok result, session)

def step (session : Session) : Except SessionError StepResult × Session := session.stepTracing false

def progress (session : Session) : Progress := session.reading.progress session.graph

def isComplete (session : Session) : Bool := session.progress == .complete

/-- The number of word parts of the whole sentence. -/
def signalCount (session : Session) : Nat := session.reading.signalCount session.graph

/-- Steps until the sentence has been read. The first argument bounds the number of steps. -/
def runWithin (tracing : Bool) : Nat → Session → Except SessionError (List StepResult) × Session
  | 0, session => (.ok [], session)
  | fuel + 1, session =>
    if session.isComplete then (.ok [], session)
    else
      match session.stepTracing tracing with
      | (.error cause, session) => (.error cause, session)
      | (.ok result, session) =>
        let (rest, session) := runWithin tracing fuel session
        (rest.map (result :: ·), session)

/-- Steps until the sentence has been read, which takes a step for each word part at most. -/
def runTracing (session : Session) (tracing : Bool) :
    Except SessionError (List StepResult) × Session :=
  runWithin tracing session.signalCount session

def run (session : Session) : Except SessionError (List StepResult) × Session :=
  session.runTracing false

def consumed (session : Session) : Nat := session.reading.wordParts.size

/-- Whether a route covers every word part read so far and has no free mover left. -/
def covers (session : Session) (route : Route) : Bool :=
  route.size == session.consumed && route.span.movers.isEmpty

def completeRoutes (session : Session) : List RouteId :=
  (List.range session.search.arena.size).filter fun id =>
    session.covers (session.search.arena.route id)

def derivations (session : Session) : Array Derivation := session.search.arena.derivations

def rankedRoute (session : Session) (derivations : Array Derivation) (id : RouteId) : RankedRoute :=
  let route := session.search.arena.route id
  { id
    root := route.root.signal
    cost := (derivations.getD id default).cost
    size := route.size
    weight := route.weight }

/-- The complete routes of a sentence that has been read, best first. -/
def bestRoutes (session : Session) : Except SessionError (List RankedRoute) :=
  if session.isComplete then
    .ok ((session.completeRoutes.map (session.rankedRoute session.derivations)).mergeSort
      fun a b => (compare a.rank b.rank).isLE)
  else .error (.incomplete session.consumed session.signalCount)

/-- The routes rooted at a signal, in the order of their creation. -/
def routesAt (session : Session) (signal : Signal) : List RouteId :=
  match session.search.part? signal with
  | none => []
  | some part => part.routesDown.toList

/-- The routes rooted at any occurrence of an entry. -/
def routesOf (session : Session) (entry : EntryId) : List RouteId :=
  (session.reading.wordParts.toList.filter (·.entry == entry)).flatMap fun part =>
    session.routesAt part.signal

def mergeEdges (session : Session) : List (Signal × Signal) :=
  session.search.edges PartState.argEdges

def adjunctionEdges (session : Session) : List (Signal × Signal) :=
  session.search.edges PartState.adjunctions

/-- The categories of the word parts read so far, with their signals. -/
def activeCategories (session : Session) : List (String × SignalSet) :=
  session.licensing.activeCategories session.graph

def routeCount (session : Session) : Nat := session.search.arena.size

def capped (session : Session) : Nat := session.search.capped

end Session

end MergeGrammar
