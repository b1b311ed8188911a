import MergeGrammar.Span

/-!
# Adjacency

Two routes combine only if their spans are neighbors, and a policy says what neighbors are. Under
every policy two stretches are neighbors when one ends right before the other starts; two of the
policies also let a free mover reach over a gap.
-/

namespace MergeGrammar

namespace Span

/-- The stretch of `a` ends right before that of `b` starts. -/
def endsBefore (a b : Span) : Bool := a.head != b.head && a.high + 1 == b.low

/-- The head of `a` is a free mover below `b`, and `b` has no part in its movement yet. -/
def movesTo (a b : Span) : Bool :=
  a.head != b.head && decide (a.head ∈ a.movers) && decide (a.high < b.low) &&
    decide (a.head ∉ b.usedMovers) && decide (a.head ∉ b.movers)

end Span

/-- What makes two spans neighbors. -/
inductive Policy where
  /-- Contiguous stretches, or the lower one has one of the two heads as a free mover, lies below a
  gap and shares no mover with the higher one. -/
  | moverAware
  /-- Contiguous stretches only. -/
  | strict
  /-- Contiguous stretches, or a lower route headed by a mover that the higher one has not seen. -/
  | movementLicensed
deriving DecidableEq, Repr

namespace Policy

instance : Inhabited Policy := ⟨moverAware⟩

def name : Policy → String
  | moverAware => "mover-aware"
  | strict => "strict"
  | movementLicensed => "movement-licensed"

/-- The policy of a name, or a text that lists the names. -/
def ofName (name : String) : Except String Policy :=
  if name = moverAware.name then .ok moverAware
  else if name = strict.name then .ok strict
  else if name = movementLicensed.name then .ok movementLicensed
  else .error ("unknown neighbor policy '" ++ name ++
    "' (expected mover-aware, strict or movement-licensed)")

theorem ofName_name (policy : Policy) : ofName policy.name = .ok policy := by
  cases policy <;> rfl

/-- Contiguity, whichever span comes first. -/
def contiguous (a b : Span) : Bool := a.endsBefore b || b.endsBefore a

/-- Contiguity in the order of the heads, or a mover of the lower span that is one of the two heads
and reaches over the gap. -/
def contiguousOrMoving (a b : Span) : Bool :=
  if a.head = b.head then false
  else
    let lower := if a.head < b.head then a else b
    let higher := if a.head < b.head then b else a
    lower.high + 1 == higher.low ||
      ((decide (a.head ∈ lower.movers) || decide (b.head ∈ lower.movers)) &&
        decide (lower.high < higher.low) && lower.movers.isDisjoint higher.movers)

def areNeighbors : Policy → Span → Span → Bool
  | moverAware, a, b => contiguousOrMoving a b
  | strict, a, b => contiguous a b
  | movementLicensed, a, b => contiguous a b || a.movesTo b || b.movesTo a

end Policy

end MergeGrammar
