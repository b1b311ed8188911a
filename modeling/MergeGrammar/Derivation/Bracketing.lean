import MergeGrammar.Derivation.Basic

/-!
# Bracketings

A derivation is drawn as a binary tree whose inner nodes are labelled. In a label tree the labels
are names of word parts, and an adjunct's name is joined to its host's by a plus sign on the side
where the adjunct stands. In a signal tree the labels are signals. A third form shows the
attachments as arrows.
-/

namespace MergeGrammar

/-- A binary tree with labels at all nodes. -/
inductive Bracketing where
  | leaf (label : String)
  | branch (label : String) (left right : Bracketing)
deriving DecidableEq, Repr

namespace Bracketing

def text : Bracketing → String
  | leaf label => label
  | branch label left right => "[." ++ label ++ " " ++ left.text ++ " " ++ right.text ++ "]"

end Bracketing

/-- How trees are labelled. -/
inductive TreeStyle where
  /-- By the names of word parts. -/
  | label
  /-- By signals. -/
  | signal
deriving DecidableEq, Repr

namespace Derivation

mutual

/-- The label a derivation adds to that of its host: its own name joined with those of its
adjuncts. -/
def adjunctLabel (graph : Graph) : Derivation → String
  | .node root _ _ adjuncts =>
    joinAdjunctLabels graph root.signal (graph.entry root.entry).name adjuncts
termination_by structural d => d

/-- Joins the labels of adjuncts to that of their host, each on its side. -/
def joinAdjunctLabels (graph : Graph) (host : Signal) (label : String) :
    List Derivation → String
  | [] => label
  | d :: ds =>
    let other := adjunctLabel graph d
    joinAdjunctLabels graph host
      (if host < d.root.signal then label ++ "+" ++ other else other ++ "+" ++ label) ds
termination_by structural ds => ds

end

mutual

/-- The tree labelled with names. The remnant stands to the right of its root, an adjunct on its
side of the host, and an argument on its side of the head or, if the head is free to move, on the
left. -/
def labelTree (graph : Graph) : Derivation → Bracketing
  | .node root part arg adjuncts =>
    let entry := graph.entry root.entry
    let base := match part with
      | none => .leaf entry.name
      | some d => .branch entry.name (.leaf entry.name) (labelTree graph d)
    let (label, hosted) := labelAdjuncts graph root.signal entry.name base adjuncts
    match arg with
    | none => hosted
    | some d =>
      if root.signal < d.root.signal && !entry.isFree then .branch label hosted (labelTree graph d)
      else .branch label (labelTree graph d) hosted
termination_by structural d => d

def labelAdjuncts (graph : Graph) (host : Signal) (label : String) (tree : Bracketing) :
    List Derivation → String × Bracketing
  | [] => (label, tree)
  | d :: ds =>
    if host < d.root.signal then
      let label := label ++ "+" ++ adjunctLabel graph d
      labelAdjuncts graph host label (.branch label tree (labelTree graph d)) ds
    else
      let label := adjunctLabel graph d ++ "+" ++ label
      labelAdjuncts graph host label (.branch label (labelTree graph d) tree) ds
termination_by structural ds => ds

end

mutual

/-- The signals a derivation adds to the label of its host: its own joined with those of its
adjuncts. -/
def adjunctSignals : Derivation → List Signal
  | .node root _ _ adjuncts => joinAdjunctSignals root.signal [root.signal] adjuncts
termination_by structural d => d

/-- Joins the signals of adjuncts to those of their host, each on its side. -/
def joinAdjunctSignals (host : Signal) (signals : List Signal) : List Derivation → List Signal
  | [] => signals
  | d :: ds =>
    let others := adjunctSignals d
    joinAdjunctSignals host (if host < d.root.signal then signals ++ others else others ++ signals)
      ds
termination_by structural ds => ds

end

def joinSignals (items : List String) : String := "-".intercalate items

mutual

/-- The tree labelled with signals. Leaves carry a name and a signal, and the signal of a root that
can move is marked. An argument's bracket is labelled with all signals of the derivation. -/
def signalTree (graph : Graph) : Derivation → Bracketing
  | .node root part arg adjuncts =>
    let whole : Derivation := .node root part arg adjuncts
    let entry := graph.entry root.entry
    let word := Bracketing.leaf (entry.name ++ "-" ++ toString root.signal)
    let head :=
      if whole.canMove graph then toString root.signal ++ "M" else toString root.signal
    let base := match part with
      | none => word
      | some d =>
        .branch (joinSignals (head :: d.signals.toList.map toString)) word (signalTree graph d)
    let hosted := signalAdjuncts graph root.signal [head] base adjuncts
    match arg with
    | none => hosted
    | some d =>
      let label := joinSignals (whole.signals.toList.map toString)
      if root.signal < d.root.signal && !entry.isFree then .branch label hosted (signalTree graph d)
      else .branch label (signalTree graph d) hosted
termination_by structural d => d

def signalAdjuncts (graph : Graph) (host : Signal) (label : List String) (tree : Bracketing) :
    List Derivation → Bracketing
  | [] => tree
  | d :: ds =>
    let others := (adjunctSignals d).map toString
    if host < d.root.signal then
      let label := label ++ others
      signalAdjuncts graph host label (.branch (joinSignals label) tree (signalTree graph d)) ds
    else
      let label := others ++ label
      signalAdjuncts graph host label (.branch (joinSignals label) (signalTree graph d) tree) ds
termination_by structural ds => ds

end

mutual

/-- The attachments of a derivation as arrows: a plus sign for an adjunct, an arrow that points to
the head for an argument and a point before a remnant. -/
def arrows (graph : Graph) : Derivation → String
  | .node root part arg adjuncts =>
    let hosted := arrowAdjuncts graph root.signal (graph.entry root.entry).name adjuncts
    let headed := match arg with
      | none => hosted
      | some d =>
        if root.signal < d.root.signal then "(" ++ hosted ++ "<-" ++ arrows graph d ++ ")"
        else "(" ++ arrows graph d ++ "->" ++ hosted ++ ")"
    match part with
    | none => headed
    | some d => headed ++ "." ++ arrows graph d
termination_by structural d => d

def arrowAdjuncts (graph : Graph) (host : Signal) (text : String) : List Derivation → String
  | [] => text
  | d :: ds =>
    let other := arrows graph d
    arrowAdjuncts graph host
      (if host < d.root.signal then "(" ++ text ++ "+" ++ other ++ ")"
        else "(" ++ other ++ "+" ++ text ++ ")") ds
termination_by structural ds => ds

end

def tree (graph : Graph) (style : TreeStyle) (d : Derivation) : Bracketing :=
  match style with
  | .label => d.labelTree graph
  | .signal => d.signalTree graph

end Derivation

end MergeGrammar
