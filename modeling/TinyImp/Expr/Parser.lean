import TinyImp.Expr.Basic
import TinyImp.Parser

/-! # Parsing of expressions

Six tiers of left-associative binary operators stand over prefix operators, and those over numerals,
names and parentheses.
-/

namespace TinyImp.Expr

open TinyImp.Parser

/-- The use of a token as an operator of one tier. -/
def operatorOf (tier : Tier) (token : Token) : Option (BinaryOp × Nat) :=
  match BinaryOp.ofKind? token.kind with
  | some op => if op.tier = tier then some (op, token.line) else none
  | none => none

/-- Extend `left` by operators of one tier and their right operands, in at most `rounds` rounds. -/
def chainWithin (tier : Tier) (operand : Parser Expr) : Nat → Expr → Parser Expr
  | 0, left => return left
  | rounds + 1, left => do
      match ← nextMatching (operatorOf tier) with
      | none => return left
      | some (op, line) =>
          let right ← operand
          let whole := Expr.binary op left right line
          if whole.height ≤ maxHeight then chainWithin tier operand rounds whole
          else fail .nestingTooDeep line

/-- Operands joined by the operators of one tier. Each round makes the tree higher, so the limit on
    its height also limits the rounds. -/
def chain (tier : Tier) (operand : Parser Expr) : Parser Expr := do
  let left ← operand
  chainWithin tier operand maxHeight left

/-- Operands joined by the operators of several tiers, of which the first binds loosest. -/
def joined (tiers : List Tier) (operand : Parser Expr) : Parser Expr :=
  tiers.foldr chain operand

/-- The use of a token as the magnitude of the least value. -/
def leastMagnitude (token : Token) : Option Nat :=
  if token.kind = .number ∧
      Decimal.unsigned? token.lexeme.toList = some Value.least.toInt.natAbs then
    some token.line
  else none

/-- A numeral, a name, or an expression in parentheses. `inner line` parses an operand inside a
    level that is opened on a line. -/
def primary (inner : Nat → Parser Expr) : Parser Expr := do
  match ← next with
  | none => fail .unexpectedEnd unknownLine
  | some token =>
      match token.kind with
      | .leftParen =>
          let expr ← joined Tier.all (inner token.line)
          let _ ← expect .rightParen
          return expr
      | .number =>
          match Value.ofDecimal? token.lexeme with
          | some value => return .const value token.line
          | none => fail (.literalTooLarge token.lexeme) token.line
      | .identifier => return .var token.lexeme token.line
      | _ => fail (.unexpected token.lexeme) token.line

/-- An operand under one prefix operator, or a primary. A minus sign before the magnitude of the
    least value belongs to the numeral and opens no level. -/
def prefixed (inner : Nat → Parser Expr) : Parser Expr := do
  match ← nextMatching fun token => (UnaryOp.ofKind? token.kind).map (·, token.line) with
  | none => primary inner
  | some (.negate, line) =>
      match ← nextMatching leastMagnitude with
      | some numeralLine => return .const Value.least numeralLine
      | none => return .unary .negate (← inner line) line
  | some (.not, line) => return .unary .not (← inner line) line

/-- An operand of the binary operators. -/
def operand : (room : Nat) → Parser Expr
  | 0 => prefixed fun line => fail .nestingTooDeep line
  | room + 1 => prefixed fun _ => operand room

/-- An operand inside a level that is opened on a line. -/
def inside : (room : Nat) → (line : Nat) → Parser Expr
  | 0, line => fail .nestingTooDeep line
  | room + 1, _ => operand room

theorem operand_eq (room : Nat) : operand room = prefixed (inside room) := by
  cases room with
  | zero => rfl
  | succ room => rfl

/-- An expression whose operators bind at least as tightly as a tier. -/
def tierParser (tier : Tier) (room : Nat) : Parser Expr :=
  joined tier.andTighter (operand room)

def parser (room : Nat) : Parser Expr :=
  joined Tier.all (operand room)

/-- The expression that begins at an index of a token list, and the index after it. -/
def ofTokensAt (tokens : List Token) (start : Nat) : Except SyntaxError (Expr × Nat) :=
  match parser (roomAt 0) (tokens.drop start) with
  | .ok expr rest => .ok (expr, tokens.length - rest.length)
  | .error error _ => .error (error.settle tokens)

end TinyImp.Expr
