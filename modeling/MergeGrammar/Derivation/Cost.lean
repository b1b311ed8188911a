import MergeGrammar.Derivation.Basic

/-!
# Costs

The cost of a derivation adds up the distances over which arguments and adjuncts are attached. An
attachment costs the number of words between the head and the nearest of the component's root, first
and last word part, and a tenth for each signal between head and root. Costs are counted on a scale
that says how positions are read and sums are made, so the double-precision costs that rank
derivations have an exact twin.
-/

namespace MergeGrammar

/-- The numbers in which costs are counted. -/
structure CostScale (α : Type) where
  /-- How the number of a word or a signal is read. -/
  position : Nat → Int
  zero : α
  add : α → α → α
  steps : Nat → α
  tenths : Nat → α

namespace CostScale

/-- A number below 2^64 read as a signed number of 64 bits. -/
def signed64 (n : Nat) : Int := (n : Int).bmod 0x10000000000000000

/-- Double precision, each sum rounded. -/
def double : CostScale Float where
  position := signed64
  zero := 0.0
  add := (· + ·)
  steps n := Float.ofNat n
  tenths n := Float.ofNat n / 10.0

/-- Exact rational numbers. -/
def exact : CostScale Rat where
  position n := n
  zero := 0
  add := (· + ·)
  steps n := n
  tenths n := (n : Rat) / 10

def distance {α : Type} (scale : CostScale α) (a b : Nat) : Nat :=
  (scale.position a - scale.position b).natAbs

end CostScale

/-- The cost of attaching a component with the given root, first and last word part to a head.
Adjacent attachment is free. -/
def relationCost {α : Type} (scale : CostScale α) (head root first last : WordPart) : α :=
  let toWord (part : WordPart) : Nat := scale.distance head.wordIndex part.wordIndex
  let reach := min (min (toWord root) (toWord first)) (toWord last)
  scale.add (scale.steps (reach - 1)) (scale.tenths (scale.distance head.signal root.signal - 1))

namespace Derivation

/-- The cost of attaching a derivation to a head, without the costs inside it. -/
def attachmentCost {α : Type} (scale : CostScale α) (head : WordPart) (d : Derivation) : α :=
  relationCost scale head d.root d.leftmost d.rightmost

mutual

/-- The cost of a derivation. What lies inside the remnant comes first, then the argument and the
adjuncts in order, each as its attachment added to what lies inside it. -/
def costOn {α : Type} (scale : CostScale α) : Derivation → α
  | .node root part arg adjuncts =>
    let remnant := match part with
      | none => scale.zero
      | some d => costOn scale d
    let headed := match arg with
      | none => remnant
      | some d => scale.add remnant (scale.add (d.attachmentCost scale root) (costOn scale d))
    addAdjunctCosts scale root headed adjuncts
termination_by structural d => d

def addAdjunctCosts {α : Type} (scale : CostScale α) (host : WordPart) (cost : α) :
    List Derivation → α
  | [] => cost
  | d :: ds =>
    addAdjunctCosts scale host
      (scale.add cost (scale.add (d.attachmentCost scale host) (costOn scale d))) ds
termination_by structural ds => ds

end

/-- The cost that ranks derivations. -/
def cost (d : Derivation) : Float := d.costOn .double

end Derivation

/-- The position of a double in the total order of all doubles: the bits of a positive number in
order, and below them those of the negative numbers in reverse order. -/
def totalOrder (x : Float) : Int :=
  let bits := x.toBits.toNat
  if bits < 0x8000000000000000 then bits else 0x8000000000000000 - (bits : Int) - 1

end MergeGrammar
