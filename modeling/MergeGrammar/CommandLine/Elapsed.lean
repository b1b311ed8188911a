/-!
# Elapsed times

A time is written in the largest of the units s, ms, µs and ns in which it is at least one, with the
digits behind the point that it needs.
-/

namespace MergeGrammar.CommandLine

def dropLastZeros (digits : List Char) : List Char :=
  (digits.reverse.dropWhile (· == '0')).reverse

/-- A number of units of ten to the power `places` nanoseconds. -/
def inUnit (places nanoseconds : Nat) (unit : String) : String :=
  let size := Nat.pow 10 places
  let rest := (toString (nanoseconds % size)).toList
  let digits := dropLastZeros (List.replicate (places - rest.length) '0' ++ rest)
  let fraction := if digits.isEmpty || places = 0 then "" else "." ++ String.ofList digits
  toString (nanoseconds / size) ++ fraction ++ unit

/-- The written form of a time in nanoseconds. -/
def elapsedText (nanoseconds : Nat) : String :=
  if 1000000000 ≤ nanoseconds then inUnit 9 nanoseconds "s"
  else if 1000000 ≤ nanoseconds then inUnit 6 nanoseconds "ms"
  else if 1000 ≤ nanoseconds then inUnit 3 nanoseconds "µs"
  else inUnit 0 nanoseconds "ns"

end MergeGrammar.CommandLine
