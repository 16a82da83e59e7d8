import TinyImp.Code.Instruction
import TinyImp.Statement.Basic

/-! # Lowering to three-address code

Temporaries and labels are numbered from 1 in the order of their first use, so the code of a part is
determined by the part and by the numbers used before it.
-/

namespace TinyImp

/-- The code of an expression: where its value is then found, and the highest temporary used. -/
structure Expr.Lowered where
  code : Code
  result : Operand
  temporaries : Nat

namespace Expr

/-- Put the value of an operation into a fresh temporary. -/
def Lowered.compute (part : Lowered) (op : Opcode) (left right : Operand) : Lowered where
  code := part.code ++ [.compute op (.temporary (part.temporaries + 1)) left right]
  result := .temporary (part.temporaries + 1)
  temporaries := part.temporaries + 1

/-- Add the truth value of an operand. -/
def Lowered.truth (part : Lowered) (operand : Operand) : Lowered :=
  part.compute .neq operand (.const 0)

/-- Lower a prefix operator, given the code of its operand. -/
def lowerUnary (part : Lowered) : UnaryOp → Lowered
  | .negate => part.compute .sub (.const 0) part.result
  | .not => part.compute .eq part.result (.const 0)

/-- Lower a connective to arithmetic on truth values: the product for `and`, and for `or` the truth
    of the sum. -/
def lowerConnective (part : Lowered) (left right : Operand) (isAnd : Bool) : Lowered :=
  let leftTruth := part.truth left
  let rightTruth := leftTruth.truth right
  if isAnd then rightTruth.compute .mul leftTruth.result rightTruth.result
  else
    let sum := rightTruth.compute .add leftTruth.result rightTruth.result
    sum.truth sum.result

/-- Lower a binary operator, given the code of both operands and where their values are found. -/
def lowerBinary (part : Lowered) (op : BinaryOp) (left right : Operand) : Lowered :=
  match Opcode.ofOperator? op with
  | some opcode => part.compute opcode left right
  | none => lowerConnective part left right (op = .and)

/-- The code of an expression after a number of temporaries. Constants need no code. -/
def lower : Expr → (temporaries : Nat) → Lowered
  | .const value _, temporaries => { code := [], result := .const value, temporaries }
  | .var name _, temporaries =>
      { code := [.load (.temporary (temporaries + 1)) name]
        result := .temporary (temporaries + 1)
        temporaries := temporaries + 1 }
  | .unary op operand _, temporaries => lowerUnary (operand.lower temporaries) op
  | .binary op left right _, temporaries =>
      let leftPart := left.lower temporaries
      let rightPart := right.lower leftPart.temporaries
      lowerBinary { rightPart with code := leftPart.code ++ rightPart.code } op
        leftPart.result rightPart.result

end Expr

/-- How many temporaries and labels are in use. The counters have no bound. Counters of 32 bits agree
    with them as long as fewer than 2^32 temporaries and fewer than 2^32 labels are in use. -/
structure Counters where
  temporaries : Nat := 0
  labels : Nat := 0
  deriving Repr, DecidableEq

mutual

/-- The code of a statement, and the counters after it. -/
def Statement.lower : Statement → Counters → Code × Counters
  | .declare names _, counters => (names.map .declare, counters)
  | .assign target value _, counters =>
      let part := value.lower counters.temporaries
      (part.code ++ [.store target part.result], { counters with temporaries := part.temporaries })
  | .print value _, counters =>
      let part := value.lower counters.temporaries
      (part.code ++ [.print part.result], { counters with temporaries := part.temporaries })
  | .loop condition body _, counters =>
      let top := counters.labels + 1
      let bottom := counters.labels + 2
      let test := condition.lower counters.temporaries
      let (bodyCode, counters) :=
        Block.lower body { temporaries := test.temporaries, labels := bottom }
      (.mark top :: test.code ++ .jumpIfZero test.result bottom :: bodyCode ++
        [.jump top, .mark bottom], counters)
  | .branch condition whenTrue whenFalse _, counters =>
      let otherwise := counters.labels + 1
      let bottom := counters.labels + 2
      let test := condition.lower counters.temporaries
      let (trueCode, counters) :=
        Block.lower whenTrue { temporaries := test.temporaries, labels := bottom }
      let (falseCode, counters) := Block.lower whenFalse counters
      (test.code ++ .jumpIfZero test.result otherwise :: trueCode ++
        .jump bottom :: .mark otherwise :: falseCode ++ [.mark bottom], counters)

def Block.lower : List Statement → Counters → Code × Counters
  | [], counters => ([], counters)
  | statement :: rest, counters =>
      let (code, counters) := statement.lower counters
      let (restCode, counters) := Block.lower rest counters
      (code ++ restCode, counters)

end

/-- Code under construction: instructions and the numbers used in them. -/
structure Draft where
  code : Code := []
  counters : Counters := {}

namespace Draft

/-- Append the code of an expression, and tell where its value is found. -/
def expr (draft : Draft) (expr : Expr) : Draft × Operand :=
  let part := expr.lower draft.counters.temporaries
  ({ code := draft.code ++ part.code
     counters := { draft.counters with temporaries := part.temporaries } }, part.result)

def statement (draft : Draft) (statement : Statement) : Draft :=
  let (code, counters) := statement.lower draft.counters
  { code := draft.code ++ code, counters }

def program (draft : Draft) (program : Program) : Draft :=
  let (code, counters) := Block.lower program draft.counters
  { code := draft.code ++ code, counters }

end Draft

def Program.lower (program : Program) : Draft :=
  Draft.program {} program

end TinyImp
