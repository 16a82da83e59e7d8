import TinyImp.Operator

/-! # Expressions

Every node carries the line of its operator, numeral or name.
-/

namespace TinyImp

inductive Expr where
  | const (value : Value) (line : Nat)
  | var (name : String) (line : Nat)
  | unary (op : UnaryOp) (operand : Expr) (line : Nat)
  | binary (op : BinaryOp) (left right : Expr) (line : Nat)
  deriving Repr, DecidableEq

namespace Expr

/-- The number of nodes on the longest path from the root to a leaf. -/
def height : Expr → Nat
  | .const _ _ | .var _ _ => 1
  | .unary _ operand _ => 1 + operand.height
  | .binary _ left right _ => 1 + max left.height right.height

/-- Text with parentheses around every operation. -/
def render : Expr → String
  | .const value _ => value.text
  | .var name _ => name
  | .unary op operand _ => "(" ++ op.symbol ++ operand.render ++ ")"
  | .binary op left right _ =>
      "(" ++ left.render ++ " " ++ op.symbol ++ " " ++ right.render ++ ")"

end Expr

end TinyImp
