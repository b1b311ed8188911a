import MergeGrammar.Route

/-!
# Derivations

A derivation is a route with its components in place of their numbers: a word part with the
derivations of its remnant, its argument and its adjuncts. `Arena.derivations` unfolds all routes of
an arena from the first to the last, so that every component is unfolded before it is used.
-/

namespace MergeGrammar

/-- A word part with what is attached to it. -/
inductive Derivation where
  | node (root : WordPart) (part arg : Option Derivation) (adjuncts : List Derivation)

namespace Derivation

instance : Inhabited Derivation := ⟨node default none none []⟩

/-- A statement about all derivations follows if it passes from the components to the whole. -/
@[elab_as_elim] theorem induct {motive : Derivation → Prop}
    (node : ∀ root part arg adjuncts, (∀ d, part = some d → motive d) →
      (∀ d, arg = some d → motive d) → (∀ d ∈ adjuncts, motive d) →
      motive (.node root part arg adjuncts)) (d : Derivation) : motive d := by
  refine Derivation.rec (motive_1 := motive) (motive_2 := fun slot => ∀ d, slot = some d → motive d)
    (motive_3 := fun ds => ∀ d ∈ ds, motive d) ?_ ?_ ?_ ?_ ?_ d
  · exact node
  · intro d h
    cases h
  · intro d hd e he
    cases he
    exact hd
  · intro d h
    cases h
  · intro d ds hd hds e he
    rcases List.mem_cons.1 he with rfl | h
    · exact hd
    · exact hds e h

def root : Derivation → WordPart
  | .node root _ _ _ => root

mutual

/-- The word parts of a derivation, the root first and the rest in the order of the components. -/
def wordParts : Derivation → List WordPart
  | .node root part arg adjuncts =>
    let remnant := match part with
      | none => []
      | some d => wordParts d
    let argument := match arg with
      | none => []
      | some d => wordParts d
    root :: (remnant ++ argument ++ wordPartsOfAll adjuncts)
termination_by structural d => d

def wordPartsOfAll : List Derivation → List WordPart
  | [] => []
  | d :: ds => wordParts d ++ wordPartsOfAll ds
termination_by structural ds => ds

end

def signals (d : Derivation) : SignalSet := .ofList (d.wordParts.map WordPart.signal)

/-- The word part with the least signal. -/
def leftmost (d : Derivation) : WordPart :=
  d.wordParts.foldl (fun best part => if part.signal < best.signal then part else best) d.root

/-- The word part with the greatest signal. -/
def rightmost (d : Derivation) : WordPart :=
  d.wordParts.foldl (fun best part => if best.signal < part.signal then part else best) d.root

mutual

/-- Whether the root is free to move, or else its argument or one of its adjuncts can move. -/
def canMove (graph : Graph) : Derivation → Bool
  | .node root _ arg adjuncts =>
    let argument := match arg with
      | none => false
      | some d => canMove graph d
    (graph.entry root.entry).isFree || argument || anyCanMove graph adjuncts
termination_by structural d => d

def anyCanMove (graph : Graph) : List Derivation → Bool
  | [] => false
  | d :: ds => canMove graph d || anyCanMove graph ds
termination_by structural ds => ds

end

end Derivation

/-- A route with its components unfolded. The derivations of the earlier routes are in `built`. -/
def Route.unfold (built : Array Derivation) (route : Route) : Derivation :=
  .node route.root (route.part.bind (built[·]?)) (route.arg.bind (built[·]?))
    (route.adjuncts.filterMap (built[·]?))

def Arena.derivations (arena : Arena) : Array Derivation :=
  arena.routes.foldl (fun built route => built.push (route.unfold built)) #[]

end MergeGrammar
