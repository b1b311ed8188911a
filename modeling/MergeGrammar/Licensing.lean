import MergeGrammar.Reading

/-!
# Licensing

Activating a word part at a signal sends the signal along its features. A negative feature remembers
the signals of its own hosts and the signals that satisfying positive features announced to it;
whenever a host and an announced signal meet for the first time, their combination is licensed.
Sets only grow while a sentence is read.
-/

namespace MergeGrammar

/-- A combination of two word parts that their features allow. -/
inductive Licence where
  /-- The head selects the argument. -/
  | merge (head arg : Signal)
  /-- The host takes the adjunct. -/
  | adjunction (host adjunct : Signal)
deriving DecidableEq, Repr

/-- The signals that have reached a feature. -/
structure Activation where
  /-- For a positive feature, the signals of the word parts that carry it. -/
  positive : SignalSet
  /-- For a negative feature, the signals of the word parts that carry it. -/
  hosts : SignalSet
  /-- For a negative feature, the signals announced by satisfying features. -/
  announced : SignalSet
deriving DecidableEq, Repr

instance : Inhabited Activation := ⟨⟨∅, ∅, ∅⟩⟩

/-- The signals that have reached the nodes of a graph. -/
structure Licensing where
  entries : Array SignalSet
  categories : Array SignalSet
  features : Array Activation
  /-- Pairs of head and argument licensed so far. -/
  merged : List (Signal × Signal)
  /-- Pairs of host and adjunct licensed so far. -/
  pairMerged : List (Signal × Signal)
deriving DecidableEq, Repr

/-- A host and an announced signal that met at a negative feature. -/
structure Meeting where
  feature : FeatureId
  host : Signal
  announced : Signal
deriving DecidableEq, Repr

/-- Whether a signal is one of the two that met. -/
def Meeting.involves (signal : Signal) (met : Meeting) : Bool :=
  met.host == signal || met.announced == signal

namespace Licensing

def start (graph : Graph) : Licensing where
  entries := Array.replicate graph.entries.size ∅
  categories := Array.replicate graph.categories.size ∅
  features := Array.replicate graph.features.size default
  merged := []
  pairMerged := []

/-- Empties the set of every node and forgets the licensed pairs. -/
def reset (state : Licensing) : Licensing where
  entries := state.entries.map fun _ => ∅
  categories := state.categories.map fun _ => ∅
  features := state.features.map fun _ => default
  merged := []
  pairMerged := []

def activation (state : Licensing) (id : FeatureId) : Activation := state.features.getD id default

/-- A word part that carries a negative feature meets every signal announced to it, itself apart. -/
def host (signal : Signal) (state : Licensing) (id : FeatureId) : Licensing × List Meeting :=
  let seen := state.activation id
  if signal ∈ seen.hosts then (state, [])
  else
    ({ state with
        features := state.features.modify id fun a => { a with hosts := a.hosts.insert signal } },
      (seen.announced.toList.filter (· != signal)).map fun other => ⟨id, signal, other⟩)

/-- A word part announced to a negative feature meets its hosts, unless it is a host itself. -/
def announce (signal : Signal) (state : Licensing) (id : FeatureId) : Licensing × List Meeting :=
  let seen := state.activation id
  if signal ∈ seen.hosts ∨ signal ∈ seen.announced then (state, [])
  else
    ({ state with
        features := state.features.modify id fun a =>
          { a with announced := a.announced.insert signal } },
      seen.hosts.toList.map fun other => ⟨id, other, signal⟩)

def announceAll (signal : Signal) (state : Licensing) : List FeatureId → Licensing × List Meeting
  | [] => (state, [])
  | id :: ids =>
    let (state, met) := state.announce signal id
    let (state, others) := announceAll signal state ids
    (state, met ++ others)

/-- Sends a signal to a feature of its word part. A positive feature passes it on once. -/
def reach (graph : Graph) (signal : Signal) (state : Licensing) (id : FeatureId) :
    Licensing × List Meeting :=
  let node := graph.feature id
  if node.feature.isPositive then
    if signal ∈ (state.activation id).positive then (state, [])
    else
      announceAll signal
        { state with
          features := state.features.modify id fun a =>
            { a with positive := a.positive.insert signal } }
        node.partners
  else state.host signal id

def reachAll (graph : Graph) (signal : Signal) (state : Licensing) :
    List FeatureId → Licensing × List Meeting
  | [] => (state, [])
  | id :: ids =>
    let (state, met) := state.reach graph signal id
    let (state, others) := reachAll graph signal state ids
    (state, met ++ others)

def tag (signal : Signal) (state : Licensing) (ids : List CategoryId) : Licensing :=
  { state with
    categories := ids.foldl (fun sets id => sets.modify id (·.insert signal)) state.categories }

/-- The licence of a meeting, unless its feature leads to nothing or the pair has it already. -/
def accept (graph : Graph) (state : Licensing) (met : Meeting) : Licensing × Option Licence :=
  let pair := (met.host, met.announced)
  match (graph.feature met.feature).target with
  | some .merge =>
    if pair ∈ state.merged then (state, none)
    else ({ state with merged := pair :: state.merged }, some (.merge met.host met.announced))
  | some .pairMerge =>
    if pair ∈ state.pairMerged then (state, none)
    else
      ({ state with pairMerged := pair :: state.pairMerged },
        some (.adjunction met.host met.announced))
  | none => (state, none)

/-- The licences of several meetings in order, each with the feature that gave it. -/
def acceptAll (graph : Graph) (state : Licensing) :
    List Meeting → Licensing × List (FeatureId × Licence)
  | [] => (state, [])
  | met :: others =>
    let (state, licence) := state.accept graph met
    let (state, licences) := acceptAll graph state others
    (state, licence.toList.map (met.feature, ·) ++ licences)

/-- Activates a word part and gives the licences that come from it in order. Activating the same
entry at the same signal again changes nothing. A meeting counts only if it involves the signal,
which every meeting does that the signal brings about. -/
def activate (graph : Graph) (state : Licensing) (part : WordPart) :
    Licensing × List (FeatureId × Licence) :=
  if part.signal ∈ state.entries.getD part.entry ∅ then (state, [])
  else
    let entry := graph.entry part.entry
    let state :=
      { state with entries := state.entries.modify part.entry (·.insert part.signal) }
    let (state, met) := state.reachAll graph part.signal entry.features
    (state.tag part.signal entry.categories).acceptAll graph
      (met.filter (·.involves part.signal))

/-- The categories that have been reached, in the order of the graph, with their signals. -/
def activeCategories (graph : Graph) (state : Licensing) : List (String × SignalSet) :=
  state.categories.toList.zipIdx.filterMap fun (signals, id) =>
    if signals.isEmpty then none else some (graph.category id, signals)

end Licensing

end MergeGrammar
