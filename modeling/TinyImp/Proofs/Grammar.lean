import Mathlib.Algebra.Group.Int.Defs
import Mathlib.Algebra.Group.Nat.Defs
import TinyImp.Parser
import TinyImp.Statement.Basic

/-! # The grammar

The rules by which token lists spell expressions, statements and programs, with no reference to how
they are read. `depth` is the number of levels that are open around a phrase. The parentheses of a
primary, a prefix operator and a brace each open one, as far as the limits let them. Whatever the
rules build at all, they build under some limits.
-/

namespace TinyImp

/-- How many levels may be open at a time, and how high the tree of a binary operator may be. -/
structure Limits where
  nesting : Nat
  height : Nat

/-- The limits of the parser. -/
def Limits.standard : Limits :=
  ⟨maxNesting, maxHeight⟩

/-- Expressions over the operators of some tiers, of which the first binds loosest. With no tiers
    left these are the operands: primaries, perhaps under prefix operators. -/
inductive Expr.Phrase (limits : Limits) :
    List Tier → (depth : Nat) → List Token → Expr → Prop where
  | number {depth : Nat} {token : Token} {value : Value} :
      token.kind = .number →
      Decimal.signed? token.lexeme.toList = some value.toInt →
      Phrase limits [] depth [token] (.const value token.line)
  | name {depth : Nat} {token : Token} :
      token.kind = .identifier →
      Phrase limits [] depth [token] (.var token.lexeme token.line)
  | parens {depth : Nat} {opening closing : Token} {used : List Token} {expr : Expr} :
      opening.kind = .leftParen →
      depth < limits.nesting →
      Phrase limits Tier.all (depth + 1) used expr →
      closing.kind = .rightParen →
      Phrase limits [] depth (opening :: used ++ [closing]) expr
  /-- The magnitude of the least value is no value, so it stands only after its sign. -/
  | least {depth : Nat} {sign magnitude : Token} :
      sign.kind = .minus →
      magnitude.kind = .number →
      Decimal.unsigned? magnitude.lexeme.toList = some (2 ^ 63) →
      Phrase limits [] depth [sign, magnitude] (.const Value.least magnitude.line)
  | unary {depth : Nat} {sign : Token} {op : UnaryOp} {used : List Token} {operand : Expr} :
      UnaryOp.ofKind? sign.kind = some op →
      depth < limits.nesting →
      Phrase limits [] (depth + 1) used operand →
      Phrase limits [] depth (sign :: used) (.unary op operand sign.line)
  | tighter {tier : Tier} {tiers : List Tier} {depth : Nat} {used : List Token} {expr : Expr} :
      Phrase limits tiers depth used expr →
      Phrase limits (tier :: tiers) depth used expr
  /-- The left operand may hold operators of the same tier, the right one only tighter ones. -/
  | binary {tier : Tier} {tiers : List Tier} {depth : Nat} {usedLeft usedRight : List Token}
      {left right : Expr} {sign : Token} {op : BinaryOp} :
      Phrase limits (tier :: tiers) depth usedLeft left →
      BinaryOp.ofKind? sign.kind = some op →
      op.tier = tier →
      Phrase limits tiers depth usedRight right →
      (Expr.binary op left right sign.line).height ≤ limits.height →
      Phrase limits (tier :: tiers) depth (usedLeft ++ sign :: usedRight)
        (.binary op left right sign.line)

/-- An expression in parentheses that open no level. -/
inductive Expr.Enclosed (limits : Limits) (depth : Nat) : List Token → Expr → Prop where
  | parens {opening closing : Token} {used : List Token} {expr : Expr} :
      opening.kind = .leftParen →
      Expr.Phrase limits Tier.all depth used expr →
      closing.kind = .rightParen →
      Enclosed limits depth (opening :: used ++ [closing]) expr

/-- Further names of a declaration, each after a comma, and the semicolon that ends it. -/
inductive Statement.FurtherNames : List Token → List String → Prop where
  | ended {semicolon : Token} :
      semicolon.kind = .semicolon →
      FurtherNames [semicolon] []
  | name {comma name : Token} {used : List Token} {names : List String} :
      comma.kind = .comma →
      name.kind = .identifier →
      FurtherNames used names →
      FurtherNames (comma :: name :: used) (name.lexeme :: names)

mutual

inductive Statement.Phrase (limits : Limits) :
    (depth : Nat) → List Token → Statement → Prop where
  | declare {depth : Nat} {word first : Token} {used : List Token} {names : List String} :
      word.kind = .intWord →
      first.kind = .identifier →
      Statement.FurtherNames used names →
      Statement.Phrase limits depth (word :: first :: used)
        (.declare (first.lexeme :: names) word.line)
  | assign {depth : Nat} {target equals semicolon : Token} {used : List Token} {value : Expr} :
      target.kind = .identifier →
      equals.kind = .equals →
      Expr.Phrase limits Tier.all depth used value →
      semicolon.kind = .semicolon →
      Statement.Phrase limits depth (target :: equals :: used ++ [semicolon])
        (.assign target.lexeme value target.line)
  | print {depth : Nat} {word semicolon : Token} {used : List Token} {value : Expr} :
      word.kind = .printWord →
      Expr.Enclosed limits depth used value →
      semicolon.kind = .semicolon →
      Statement.Phrase limits depth (word :: used ++ [semicolon]) (.print value word.line)
  | loop {depth : Nat} {word : Token} {used usedBody : List Token} {condition : Expr}
      {body : Block} :
      word.kind = .whileWord →
      Expr.Enclosed limits depth used condition →
      Block.Phrase limits depth usedBody body →
      Statement.Phrase limits depth (word :: used ++ usedBody) (.loop condition body word.line)
  | branch {depth : Nat} {word : Token} {used usedTrue : List Token} {condition : Expr}
      {whenTrue : Block} :
      word.kind = .ifWord →
      Expr.Enclosed limits depth used condition →
      Block.Phrase limits depth usedTrue whenTrue →
      Statement.Phrase limits depth (word :: used ++ usedTrue)
        (.branch condition whenTrue [] word.line)
  | branchElse {depth : Nat} {word elseWord : Token} {used usedTrue usedFalse : List Token}
      {condition : Expr} {whenTrue whenFalse : Block} :
      word.kind = .ifWord →
      Expr.Enclosed limits depth used condition →
      Block.Phrase limits depth usedTrue whenTrue →
      elseWord.kind = .elseWord →
      Block.Phrase limits depth usedFalse whenFalse →
      Statement.Phrase limits depth (word :: used ++ usedTrue ++ elseWord :: usedFalse)
        (.branch condition whenTrue whenFalse word.line)

inductive Block.Phrase (limits : Limits) : (depth : Nat) → List Token → Block → Prop where
  | braces {depth : Nat} {opening closing : Token} {used : List Token} {block : Block} :
      opening.kind = .leftBrace →
      depth < limits.nesting →
      Block.Row limits (depth + 1) used block →
      closing.kind = .rightBrace →
      Block.Phrase limits depth (opening :: used ++ [closing]) block

/-- Statements one after the other. -/
inductive Block.Row (limits : Limits) : (depth : Nat) → List Token → Block → Prop where
  | nil {depth : Nat} : Block.Row limits depth [] []
  | cons {depth : Nat} {usedFirst used : List Token} {first : Statement} {block : Block} :
      Statement.Phrase limits depth usedFirst first →
      Block.Row limits depth used block →
      Block.Row limits depth (usedFirst ++ used) (first :: block)

end

/-- A program is a row of statements outside all levels. -/
def Program.Phrase (limits : Limits) (tokens : List Token) (program : Program) : Prop :=
  Block.Row limits 0 tokens program

end TinyImp
