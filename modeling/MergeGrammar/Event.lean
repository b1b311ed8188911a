import MergeGrammar.Licensing
import MergeGrammar.Route

/-!
# Events

What can be reported while a sentence is analysed. Events name routes and features by their numbers,
which keep their meaning when the analysis goes on.
-/

namespace MergeGrammar

/-- Which limit a dropped route would have passed. -/
inductive Limit where
  /-- The number of routes for one sentence. -/
  | routes
  /-- The number of routes for one span. -/
  | profile
deriving DecidableEq, Repr

inductive Event where
  | started (tokens : Nat) (policy : String)
  | licensed (feature : FeatureId) (licence : Licence)
  | joined (licence : Licence)
  | climbing (signal : Signal) (route : RouteId)
  | disagreeing (adjunct host : RouteId)
  | overlapping (base other : Span)
  | combined (relation : Relation) (base other new : RouteId)
  | dropping (limit : Limit) (amount : Nat)
  | stepped (part : WordPart) (previous : Option Signal)
    (earlier merges adjunctions routes passes : Nat)
deriving DecidableEq, Repr

end MergeGrammar
