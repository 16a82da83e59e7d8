import TinyImp.Token.Basic
import TinyImp.Value

/-! # Operators

The prefix and binary operators: how they are written, how tightly they bind, and what they compute.
-/

namespace TinyImp

inductive UnaryOp where
  | negate
  | not
  deriving Repr, DecidableEq

namespace UnaryOp

def symbol : UnaryOp → String
  | .negate => "-"
  | .not => "!"

/-- The prefix operator that a token of this kind writes. -/
def ofKind? : Token.Kind → Option UnaryOp
  | .minus => some .negate
  | .bang => some .not
  | _ => none

def apply : UnaryOp → Value → Except RuntimeFault Value
  | .negate, value => value.negate
  | .not, value => .ok (.ofBool !value.isTrue)

end UnaryOp

inductive BinaryOp where
  | mul
  | div
  | add
  | sub
  | less
  | greater
  | lessEqual
  | greaterEqual
  | equal
  | notEqual
  | and
  | or
  deriving Repr, DecidableEq

/-- The levels of binding, each of them left-associative. -/
inductive Tier where
  | or
  | and
  | equality
  | comparison
  | additive
  | multiplicative
  deriving Repr, DecidableEq

namespace Tier

/-- Every level, the loosest first. -/
def all : List Tier :=
  [.or, .and, .equality, .comparison, .additive, .multiplicative]

/-- A level and those that bind tighter. -/
def andTighter : Tier → List Tier
  | .or => all
  | .and => [.and, .equality, .comparison, .additive, .multiplicative]
  | .equality => [.equality, .comparison, .additive, .multiplicative]
  | .comparison => [.comparison, .additive, .multiplicative]
  | .additive => [.additive, .multiplicative]
  | .multiplicative => [.multiplicative]

end Tier

namespace BinaryOp

/-- Every binary operator. -/
def all : List BinaryOp :=
  [.mul, .div, .add, .sub, .less, .greater, .lessEqual, .greaterEqual, .equal, .notEqual, .and, .or]

def symbol : BinaryOp → String
  | .mul => "*"
  | .div => "/"
  | .add => "+"
  | .sub => "-"
  | .less => "<"
  | .greater => ">"
  | .lessEqual => "<="
  | .greaterEqual => ">="
  | .equal => "=="
  | .notEqual => "!="
  | .and => "&&"
  | .or => "||"

def tier : BinaryOp → Tier
  | .mul | .div => .multiplicative
  | .add | .sub => .additive
  | .less | .greater | .lessEqual | .greaterEqual => .comparison
  | .equal | .notEqual => .equality
  | .and => .and
  | .or => .or

/-- The binary operator that a token of this kind writes. -/
def ofKind? : Token.Kind → Option BinaryOp
  | .star => some .mul
  | .slash => some .div
  | .plus => some .add
  | .minus => some .sub
  | .less => some .less
  | .greater => some .greater
  | .lessEqual => some .lessEqual
  | .greaterEqual => some .greaterEqual
  | .equalEqual => some .equal
  | .bangEqual => some .notEqual
  | .andAnd => some .and
  | .pipePipe => some .or
  | _ => none

/-- Comparisons and connectives give truth values. The connectives are functions of both operands:
    neither is skipped. -/
def apply : BinaryOp → Value → Value → Except RuntimeFault Value
  | .mul, left, right => left.mul right
  | .div, left, right => left.div right
  | .add, left, right => left.add right
  | .sub, left, right => left.sub right
  | .less, left, right => .ok (.ofBool (left < right))
  | .greater, left, right => .ok (.ofBool (right < left))
  | .lessEqual, left, right => .ok (.ofBool (left ≤ right))
  | .greaterEqual, left, right => .ok (.ofBool (right ≤ left))
  | .equal, left, right => .ok (.ofBool (left == right))
  | .notEqual, left, right => .ok (.ofBool (left != right))
  | .and, left, right => .ok (.ofBool (left.isTrue && right.isTrue))
  | .or, left, right => .ok (.ofBool (left.isTrue || right.isTrue))

end BinaryOp

end TinyImp
