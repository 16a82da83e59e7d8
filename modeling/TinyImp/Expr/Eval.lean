import TinyImp.Expr.Basic
import TinyImp.Store

/-! # Values of expressions

Both operands of every binary operator are evaluated, the left one first. A fault is reported on the
line of the node at which it arises.
-/

namespace TinyImp.Expr

/-- The value of an expression in a store. -/
def eval (store : Store) : Expr → Except RuntimeError Value
  | .const value _ => .ok value
  | .var name line =>
      match store.get? name with
      | some value => .ok value
      | none => .error { fault := .unboundVariable name, line }
  | .unary op operand line => do
      let value ← operand.eval store
      locate line (op.apply value)
  | .binary op left right line => do
      let leftValue ← left.eval store
      let rightValue ← right.eval store
      locate line (op.apply leftValue rightValue)

end TinyImp.Expr
