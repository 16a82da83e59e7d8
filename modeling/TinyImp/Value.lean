import TinyImp.Decimal
import TinyImp.Fault

/-! # Values

The language has one type of values, the signed 64-bit integers. Arithmetic is exact or it fails:
each operation computes over `Int` and `ofInt?` accepts the result only if it is in range.
-/

namespace TinyImp

abbrev Value := Int64

namespace Value

/-- The least value, the only one whose magnitude is out of range. -/
def least : Value := Int64.minValue

/-- The value equal to an integer, if there is one. -/
def ofInt? (n : Int) : Option Value :=
  if Int64.minValue.toInt ≤ n ∧ n ≤ Int64.maxValue.toInt then some (Int64.ofInt n) else none

/-- The value that a numeral denotes, if it is in range. -/
def ofDecimal? (numeral : String) : Option Value :=
  (Decimal.signed? numeral.toList).bind ofInt?

def text (value : Value) : String :=
  toString value.toInt

/-- An exact result, which overflows if no value is equal to it. -/
def exact (n : Int) : Except RuntimeFault Value :=
  match ofInt? n with
  | some value => .ok value
  | none => .error .overflow

def add (left right : Value) : Except RuntimeFault Value :=
  exact (left.toInt + right.toInt)

def sub (left right : Value) : Except RuntimeFault Value :=
  exact (left.toInt - right.toInt)

def mul (left right : Value) : Except RuntimeFault Value :=
  exact (left.toInt * right.toInt)

/-- The quotient, rounded toward zero. -/
def div (left right : Value) : Except RuntimeFault Value :=
  if right = 0 then .error .divisionByZero else exact (left.toInt.tdiv right.toInt)

def negate (value : Value) : Except RuntimeFault Value :=
  exact (-value.toInt)

/-- Truth values are stored as `1` and `0`. -/
def ofBool (truth : Bool) : Value :=
  if truth then 1 else 0

/-- Every value but zero counts as true. -/
def isTrue (value : Value) : Bool :=
  value != 0

end Value

end TinyImp
