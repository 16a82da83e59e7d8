import TinyImp.Operator
import TinyImp.Text

/-! # Three-address code

Instructions work on named variables and numbered temporaries, and jump to numbered labels.
-/

namespace TinyImp

/-- A temporary or a constant. Temporaries are numbered without a bound; below 2^32 a number of 32 bits
    is the same. -/
inductive Operand where
  | temporary (number : Nat)
  | const (value : Value)
  deriving Repr, DecidableEq

def Operand.render : Operand → String
  | .temporary number => "t" ++ toString number
  | .const value => value.text

/-- Labels are numbers without a bound; below 2^32 a number of 32 bits is the same. -/
abbrev Label := Nat

def Label.render (label : Label) : String :=
  "L" ++ toString label

inductive Opcode where
  | add
  | sub
  | mul
  | div
  | lt
  | gt
  | lte
  | gte
  | eq
  | neq
  deriving Repr, DecidableEq

namespace Opcode

def all : List Opcode :=
  [.add, .sub, .mul, .div, .lt, .gt, .lte, .gte, .eq, .neq]

def mnemonic : Opcode → String
  | .add => "ADD"
  | .sub => "SUB"
  | .mul => "MUL"
  | .div => "DIV"
  | .lt => "LT"
  | .gt => "GT"
  | .lte => "LTE"
  | .gte => "GTE"
  | .eq => "EQ"
  | .neq => "NEQ"

/-- The operation that computes an operator. The connectives have none. -/
def ofOperator? : BinaryOp → Option Opcode
  | .mul => some .mul
  | .div => some .div
  | .add => some .add
  | .sub => some .sub
  | .less => some .lt
  | .greater => some .gt
  | .lessEqual => some .lte
  | .greaterEqual => some .gte
  | .equal => some .eq
  | .notEqual => some .neq
  | .and | .or => none

def apply : Opcode → Value → Value → Except RuntimeFault Value
  | .add, left, right => left.add right
  | .sub, left, right => left.sub right
  | .mul, left, right => left.mul right
  | .div, left, right => left.div right
  | .lt, left, right => .ok (.ofBool (left < right))
  | .gt, left, right => .ok (.ofBool (right < left))
  | .lte, left, right => .ok (.ofBool (left ≤ right))
  | .gte, left, right => .ok (.ofBool (right ≤ left))
  | .eq, left, right => .ok (.ofBool (left == right))
  | .neq, left, right => .ok (.ofBool (left != right))

end Opcode

inductive Instruction where
  /-- The variable exists, from before the first instruction on. -/
  | declare (name : String)
  | load (target : Operand) (name : String)
  | store (name : String) (source : Operand)
  | compute (op : Opcode) (target left right : Operand)
  | print (source : Operand)
  /-- The place of a label. -/
  | mark (label : Label)
  | jump (label : Label)
  | jumpIfZero (source : Operand) (label : Label)
  deriving Repr, DecidableEq

namespace Instruction

def render : Instruction → String
  | .declare name => "DECLARE " ++ name
  | .load target name => "LOAD " ++ target.render ++ ", " ++ name
  | .store name source => "STORE " ++ name ++ ", " ++ source.render
  | .compute op target left right =>
      op.mnemonic ++ " " ++ target.render ++ ", " ++ left.render ++ ", " ++ right.render
  | .print source => "PRINT " ++ source.render
  | .mark label => "LABEL " ++ label.render
  | .jump label => "JMP " ++ label.render
  | .jumpIfZero source label => "JZ " ++ source.render ++ ", " ++ label.render

/-- The label to which an instruction may jump. -/
def jumpTarget? : Instruction → Option Label
  | .jump label | .jumpIfZero _ label => some label
  | _ => none

/-- The variable that an instruction declares. -/
def declared? : Instruction → Option String
  | .declare name => some name
  | _ => none

end Instruction

abbrev Code := List Instruction

def Code.render (code : Code) : String :=
  unlines (code.map Instruction.render)

end TinyImp
