import MergeGrammar.Search.State

/-!
# The search for derivations

A stored route climbs: it is offered as an argument to the routes of its heads, as an adjunct to the
routes of its hosts and, if it belongs to a remnant, as a part to the routes of the word part before
it. Every combination that is stored climbs in turn, before the next one is tried. `settle` lets all
routes climb again until none is added.

A combination has more signals than its component, so climbs nest no deeper than there are word
parts, and no list of routes grows beyond the limit on routes. These two bounds end all recursion.
-/

namespace MergeGrammar

/-- What a search is held to. -/
structure Setting where
  graph : Graph
  options : Options
  /-- Whether every event is recorded, and not only the first dropped route. -/
  tracing : Bool

/-- The search during one step, with what the step has added so far. -/
structure Climb where
  state : SearchState
  added : Array RouteId
  capped : Nat
  attempts : Nat
  /-- Recorded events, the latest first. -/
  events : List Event

namespace Climb

def start (state : SearchState) : Climb := ⟨state, #[], 0, 0, []⟩

/-- Records an event if all are recorded. -/
def note (setting : Setting) (event : Event) (climb : Climb) : Climb :=
  if setting.tracing then { climb with events := event :: climb.events } else climb

def route (climb : Climb) (id : RouteId) : Route := climb.state.arena.route id

def rootEntry (setting : Setting) (climb : Climb) (id : RouteId) : LexicalEntry :=
  setting.graph.entry (climb.route id).root.entry

def areNeighbors (setting : Setting) (climb : Climb) (a b : RouteId) : Bool :=
  setting.options.policy.areNeighbors (climb.route a).span (climb.route b).span

end Climb

/-- The names of the features by which a word part takes adjuncts, as its nodes spell them. -/
def LexicalEntry.adjunctNames (graph : Graph) (entry : LexicalEntry) : List String :=
  ((entry.features.map fun id => (graph.feature id).feature).filter
    (·.sign == some .adjoin)).map Feature.name

/-- Whether a feature node of `settled` is positive, named in `names` and missing in `newcomer`. -/
def LexicalEntry.clashes (graph : Graph) (names : List String) (settled newcomer : LexicalEntry) :
    Bool :=
  settled.features.any fun id =>
    let node := graph.feature id
    node.feature.isPositive && names.contains node.feature.name && !newcomer.features.contains id

namespace Climb

/-- Whether an adjunct has, of the features by which its host takes adjuncts, all that the adjuncts
attached before it have, and the same with its own adjuncts and the host as the newcomer. -/
def adjunctAgrees (setting : Setting) (climb : Climb) (adjunct host : RouteId) : Bool :=
  let adjunctEntry := climb.rootEntry setting adjunct
  let hostEntry := climb.rootEntry setting host
  let clashAmong (names : List String) (others : List RouteId) (newcomer : LexicalEntry) : Bool :=
    others.any fun other =>
      (climb.rootEntry setting other).clashes setting.graph names newcomer
  !clashAmong (hostEntry.adjunctNames setting.graph) (climb.route host).adjuncts adjunctEntry &&
    !clashAmong (adjunctEntry.adjunctNames setting.graph) (climb.route adjunct).adjuncts hostEntry

/-- Drops the route of a key. Only the first drop of a sentence is reported. -/
def drop (limit : Limit) (amount : Nat) (key : List Nat) (climb : Climb) : Climb :=
  { climb with
    state := climb.state.drop key
    capped := climb.capped + 1
    events := if climb.state.warned then climb.events else .dropping limit amount :: climb.events }

/-- Stores a route, unless it is known already or would pass a limit, and lets it climb. -/
def store (setting : Setting) (visit : RouteId → Climb → Climb) (route : Route) (climb : Climb) :
    Climb × Option RouteId :=
  let key := route.key
  if climb.state.isKnown key then (climb, none)
  else if setting.options.maxRoutes ≤ climb.state.arena.size then
    (climb.drop .routes setting.options.maxRoutes key, none)
  else if setting.options.profileCap ≤ climb.state.profileCount route.span then
    (climb.drop .profile setting.options.profileCap key, none)
  else
    let id := climb.state.arena.size
    (visit id { climb with state := climb.state.add route, added := climb.added.push id }, some id)

/-- Whether a component cannot go into a slot: an argument or remnant slot that is filled, or an
argument whose head has been consumed in the base as a mover. -/
def isFilled (base sub : Route) : Relation → Bool
  | .argument => base.arg.isSome || decide (sub.span.head ∈ base.span.usedMovers)
  | .part => base.part.isSome
  | .adjunction => false

/-- Whether two routes share signals or their stretches cross. -/
def conflict (base sub : Route) : Bool :=
  base.span.overlaps sub.span || !base.signals.isDisjoint sub.signals

def combine (setting : Setting) (visit : RouteId → Climb → Climb) (relation : Relation)
    (base sub : RouteId) (climb : Climb) : Climb :=
  let climb := { climb with attempts := climb.attempts + 1 }
  if base = sub then climb
  else
    let b := climb.route base
    let o := climb.route sub
    if conflict b o then climb.note setting (.overlapping b.span o.span)
    else if isFilled b o relation then climb
    else
      match climb.store setting visit (b.extend sub o relation) with
      | (climb, none) => climb
      | (climb, some id) => climb.note setting (.combined relation base sub id)

/-- Offers something to the routes rooted at a signal in order, those included that are stored
meanwhile. The first argument bounds the number of offers. -/
def offer (act : RouteId → Climb → Climb) (signal : Signal) : Nat → Nat → Climb → Climb
  | 0, _, climb => climb
  | fuel + 1, i, climb =>
    match (climb.state.part signal).routesDown[i]? with
    | none => climb
    | some id => offer act signal fuel (i + 1) (act id climb)

/-- Offers something to the routes rooted at a signal. Their number never exceeds the limit on
routes. -/
def offerAll (setting : Setting) (act : RouteId → Climb → Climb) (signal : Signal)
    (climb : Climb) : Climb :=
  offer act signal setting.options.maxRoutes 0 climb

def tryArgument (setting : Setting) (visit : RouteId → Climb → Climb) (id other : RouteId)
    (climb : Climb) : Climb :=
  if (climb.route other).arg.isSome || !climb.areNeighbors setting id other then climb
  else climb.combine setting visit .argument other id

def tryAdjunct (setting : Setting) (visit : RouteId → Climb → Climb) (id other : RouteId)
    (climb : Climb) : Climb :=
  if !climb.areNeighbors setting id other then climb
  else if setting.options.checkAgreement && !climb.adjunctAgrees setting id other then
    climb.note setting (.disagreeing id other)
  else climb.combine setting visit .adjunction other id

def toHeads (setting : Setting) (visit : RouteId → Climb → Climb) (id : RouteId) (climb : Climb) :
    Climb :=
  (climb.state.part (climb.route id).root.signal).headEdges.foldl
    (fun climb head => offerAll setting (tryArgument setting visit id) head climb) climb

/-- Offers a route to the routes of all its hosts, those apart that it covers. -/
def toHosts (setting : Setting) (visit : RouteId → Climb → Climb) (id : RouteId) (climb : Climb) :
    Climb :=
  (climb.state.part (climb.route id).root.signal).adjunctTo.foldl
    (fun climb host =>
      if host ∈ (climb.route id).signals then climb
      else offerAll setting (tryAdjunct setting visit id) host climb)
    climb

/-- Offers a route of a remnant to the routes of the word part before it, unless it covers that
one. -/
def toWord (setting : Setting) (visit : RouteId → Climb → Climb) (id : RouteId) (climb : Climb) :
    Climb :=
  let route := climb.route id
  let signal := route.root.signal
  if (climb.rootEntry setting id).isFirstPart || decide (signal < 2) ||
      decide (signal - 1 ∈ route.signals) then climb
  else offerAll setting (fun other => combine setting visit .part other id) (signal - 1) climb

/-- Lets a route climb. The first argument bounds how deep climbs nest. -/
def climbUp (setting : Setting) : Nat → RouteId → Climb → Climb
  | 0, _, climb => climb
  | depth + 1, id, climb =>
    let visit := climbUp setting depth
    let climb := climb.note setting (.climbing (climb.route id).root.signal id)
    toWord setting visit id (toHosts setting visit id (toHeads setting visit id climb))

/-- Lets a route climb, with room for one nested climb for each word part. -/
def visit (setting : Setting) (id : RouteId) (climb : Climb) : Climb :=
  climbUp setting (climb.state.parts.size + 1) id climb

def seed (setting : Setting) (part : WordPart) (climb : Climb) : Climb :=
  (climb.store setting (visit setting)
    (.leaf part (setting.graph.entry part.entry).isFree)).1

/-- Lets all routes climb once, by ascending root signal. -/
def pass (setting : Setting) (climb : Climb) : Climb :=
  (List.range' 1 climb.state.parts.size).foldl
    (fun climb signal => offerAll setting (visit setting) signal climb) climb

/-- Passes until one adds no route. The first argument bounds the number of further passes, the
second counts those made. -/
def settleWithin (setting : Setting) : Nat → Nat → Climb → Climb × Nat
  | 0, passes, climb => (climb, passes)
  | fuel + 1, passes, climb =>
    let before := climb.state.arena.size
    let after := climb.pass setting
    if after.state.arena.size = before then (after, passes + 1)
    else settleWithin setting fuel (passes + 1) after

/-- Passes until one adds no route, and the number of passes. Each pass before the last one adds a
route, so there is one more of them than the limit on routes at most. -/
def settle (setting : Setting) (climb : Climb) : Climb × Nat :=
  settleWithin setting (setting.options.maxRoutes + 1) 0 climb

end Climb

end MergeGrammar
