/-!
# Decimals with fixed places

A double is written with a fixed number of decimal places: its exact value is rounded to the nearest
decimal with so many places, and a value halfway between two of them goes to the one with the even
last digit.
-/

namespace MergeGrammar.Decimal

/-- The quotient rounded to the nearest number, and to the even one of two equally near. -/
def roundedQuotient (num den : Nat) : Nat :=
  let quotient := num / den
  let rest := num % den
  if den < 2 * rest ∨ (2 * rest = den ∧ quotient % 2 = 1) then quotient + 1 else quotient

/-- The rounded quotient is at most half a unit away from the exact one. -/
theorem roundedQuotient_near (num : Nat) {den : Nat} (h : 0 < den) :
    2 * num ≤ (2 * roundedQuotient num den + 1) * den ∧
      (2 * roundedQuotient num den) * den ≤ 2 * num + den := by
  have hsplit := Nat.div_add_mod num den
  have hrest := Nat.mod_lt num h
  rw [Nat.mul_comm] at hsplit
  unfold roundedQuotient
  simp only
  split
  · next hup =>
    simp only [Nat.add_mul, Nat.mul_add, Nat.mul_assoc]
    omega
  · next hdown =>
    simp only [Nat.add_mul, Nat.mul_assoc]
    omega

/-- A quotient halfway between two numbers is rounded to the even one. -/
theorem roundedQuotient_even {num den : Nat} (h : 2 * (num % den) = den) :
    roundedQuotient num den % 2 = 0 := by
  unfold roundedQuotient
  simp only
  split
  · omega
  · omega

/-- The digits of a number of hundredths, thousandths and so on, with the point in its place. -/
def placed (places scaled : Nat) : String :=
  let size := Nat.pow 10 places
  let whole := toString (scaled / size)
  if places = 0 then whole
  else
    let rest := toString (scaled % size)
    whole ++ "." ++ String.ofList (List.replicate (places - rest.length) '0') ++ rest

/-- The bits of a double that hold its fraction, as a number above all fractions. -/
def fractionSize : Nat := 0x10000000000000

def exponentField (bits : Nat) : Nat := bits / fractionSize % 0x800

/-- A finite double is a whole number times a power of two: the number and the exponent. -/
def significand (bits : Nat) : Nat × Int :=
  let fraction := bits % fractionSize
  if exponentField bits = 0 then (fraction, -1074)
  else (fraction + fractionSize, (exponentField bits : Int) - 1075)

/-- The magnitude of a finite double in units of the last decimal place. -/
def scaledMagnitude (places bits : Nat) : Nat :=
  match significand bits with
  | (m, .ofNat e) => m * Nat.pow 2 e * Nat.pow 10 places
  | (m, .negSucc e) => roundedQuotient (m * Nat.pow 10 places) (Nat.pow 2 (e + 1))

/-- A double with a fixed number of decimal places. -/
def fixedPlaces (places : Nat) (x : Float) : String :=
  let bits := x.toBits.toNat
  let sign := if bits < 0x8000000000000000 then "" else "-"
  if exponentField bits = 0x7FF then
    if bits % fractionSize = 0 then sign ++ "inf" else "NaN"
  else sign ++ placed places (scaledMagnitude places bits)

end MergeGrammar.Decimal
