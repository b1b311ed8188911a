/-!
# Numerals

Counts are read from decimal digits, with or without a plus sign in front of them. Leading zeros are
allowed and the number is not bounded here.
-/

namespace MergeGrammar.Decimal

/-- The value of the decimal digits of a text. -/
def digitsValue? (text : List Char) : Option Nat :=
  if text.isEmpty || !text.all Char.isDigit then none
  else some (text.foldl (fun n c => 10 * n + (c.toNat - '0'.toNat)) 0)

/-- The value of decimal digits with or without a plus sign. -/
def numeral? : List Char → Option Nat
  | '+' :: digits => digitsValue? digits
  | digits => digitsValue? digits

end MergeGrammar.Decimal
