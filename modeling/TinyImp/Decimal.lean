/-! # Decimal numerals

Reading of numerals: one or more of the digits `0` to `9`, any number of leading zeros, perhaps
after a sign.
-/

namespace TinyImp.Decimal

/-- The number that a nonempty row of digits denotes. -/
def nat? (digits : List Char) : Option Nat :=
  if digits ≠ [] ∧ digits.all Char.isDigit then some (Nat.ofDigitChars 10 digits 0) else none

/-- A number, perhaps after a plus sign. -/
def unsigned? : List Char → Option Nat
  | '+' :: digits => nat? digits
  | digits => nat? digits

/-- A number, perhaps after a plus or minus sign. -/
def signed? : List Char → Option Int
  | '+' :: digits => (nat? digits).map fun n => (n : Int)
  | '-' :: digits => (nat? digits).map fun n => -(n : Int)
  | digits => (nat? digits).map fun n => (n : Int)

end TinyImp.Decimal
