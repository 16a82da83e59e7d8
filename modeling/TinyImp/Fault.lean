/-! # Faults

A fault says what went wrong; `Located` adds the line on which it is reported. The wording of a
fault is its `describe` function and the wording of a report is `Located.message`.
-/

namespace TinyImp

/-- Faults that can be put into one sentence. -/
class Describe (κ : Type) where
  describe : κ → String

/-- A fault and the line on which it is reported. -/
structure Located (κ : Type) where
  fault : κ
  line : Nat
  deriving Repr, DecidableEq

/-- The text shown to the user. -/
def Located.message {κ : Type} [Describe κ] (error : Located κ) : String :=
  "Error on line " ++ toString error.line ++ ": " ++ Describe.describe error.fault

/-- Report a fault of a computation on the given line. -/
def locate {κ α : Type} (line : Nat) (result : Except κ α) : Except (Located κ) α :=
  result.mapError fun fault => { fault, line }

/-- What can go wrong while a program runs. -/
inductive RuntimeFault where
  | divisionByZero
  /-- An exact result outside the range of values. -/
  | overflow
  /-- A name (of a variable, or the text of a register) that holds no value. -/
  | unboundVariable (name : String)
  /-- A jump to a label that no instruction defines. -/
  | undefinedLabel (label : String)
  deriving Repr, DecidableEq

instance : Describe RuntimeFault where
  describe
    | .divisionByZero => "Division by zero."
    | .overflow => "Integer overflow while trying to compute result."
    | .unboundVariable name => "Unbound variable '" ++ name ++ "'."
    | .undefinedLabel label => "Jump to undefined label '" ++ label ++ "'."

abbrev RuntimeError := Located RuntimeFault

end TinyImp
