import MergeGrammar.Adjacency
import MergeGrammar.Derivation.Bracketing

/-!
# Options

What can be chosen about the search for derivations and about the form of its results.
-/

namespace MergeGrammar

structure Options where
  policy : Policy
  profileCap : Nat
  maxRoutes : Nat
  /-- Whether an adjunct that clashes with those attached already is refused. -/
  checkAgreement : Bool
  treeStyle : TreeStyle
deriving DecidableEq, Repr

/-- The choices made when nothing else is asked for. -/
def Options.standard : Options where
  policy := .moverAware
  profileCap := 64
  maxRoutes := 50000
  checkAgreement := true
  treeStyle := .label

instance : Inhabited Options := ⟨.standard⟩

end MergeGrammar
