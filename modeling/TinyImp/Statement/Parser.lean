import TinyImp.Expr.Parser
import TinyImp.Statement.Basic

/-! # Parsing of statements and programs

The first token of a statement decides its form. The parentheses around a condition or a printed
value open no level; braces do.
-/

namespace TinyImp

open TinyImp.Parser

namespace Statement

/-- What follows a name in a list that a semicolon ends: a comma and the next name, or the end. -/
def furtherName : Parser (Option String) := do
  match ← peek with
  | none => fail .unexpectedEnd unknownLine
  | some token =>
      match token.kind with
      | .comma =>
          let _ ← next
          return some (← identifier).lexeme
      | .semicolon =>
          let _ ← next
          return none
      | _ => misplaced .semicolon (some token)

/-- One or more names between commas, and a semicolon. -/
def names : Parser (List String) := do
  let first ← identifier
  return first.lexeme :: (← many furtherName)

def declaration : Parser Statement := do
  let word ← expect .intWord
  return .declare (← names) word.line

def assignment (room : Nat) : Parser Statement := do
  let target ← identifier
  let _ ← expect .equals
  let value ← Expr.parser room
  let _ ← expect .semicolon
  return .assign target.lexeme value target.line

/-- An expression in parentheses that open no level. -/
def enclosed (room : Nat) : Parser Expr := do
  let _ ← expect .leftParen
  let expr ← Expr.parser room
  let _ ← expect .rightParen
  return expr

def printing (room : Nat) : Parser Statement := do
  let word ← expect .printWord
  let value ← enclosed room
  let _ ← expect .semicolon
  return .print value word.line

def loopParser (block : Parser Block) (room : Nat) : Parser Statement := do
  let word ← expect .whileWord
  let condition ← enclosed room
  return .loop condition (← block) word.line

def branchParser (block : Parser Block) (room : Nat) : Parser Statement := do
  let word ← expect .ifWord
  let condition ← enclosed room
  let whenTrue ← block
  match ← nextIf .elseWord with
  | some _ => return .branch condition whenTrue (← block) word.line
  | none => return .branch condition whenTrue [] word.line

/-- A statement whose blocks are parsed by `block`. -/
def parserWith (block : Parser Block) (room : Nat) : Parser Statement := do
  match ← peek with
  | none => fail .unexpectedEnd unknownLine
  | some token =>
      match token.kind with
      | .intWord => declaration
      | .identifier => assignment room
      | .printWord => printing room
      | .whileWord => loopParser block room
      | .ifWord => branchParser block room
      | _ => fail (.notAStatement token.lexeme) token.line

end Statement

namespace Block

/-- The next statement of a block that was opened on a line, or its closing brace. -/
def furtherStatement (statement : Parser Statement) (line : Nat) : Parser (Option Statement) := do
  match ← nextIf .rightBrace with
  | some _ => return none
  | none =>
      match ← peek with
      | none => fail .unexpectedEnd line
      | some _ => return some (← statement)

/-- Statements between braces, which open a level. -/
def parser : (room : Nat) → Parser Block
  | 0 => do
      let brace ← expect .leftBrace
      fail .nestingTooDeep brace.line
  | room + 1 => do
      let brace ← expect .leftBrace
      many (furtherStatement (Statement.parserWith (parser room) room) brace.line)

end Block

def Statement.parser (room : Nat) : Parser Statement :=
  Statement.parserWith (Block.parser room) room

namespace Program

/-- The next statement of a program, or its end. -/
def furtherStatement : Parser (Option Statement) := do
  match ← peek with
  | none => return none
  | some _ => return some (← Statement.parser (roomAt 0))

/-- Statements up to the end of the input. -/
def parser : Parser Program :=
  many furtherStatement

/-- The program that a token list spells. -/
def ofTokens (tokens : List Token) : Except SyntaxError Program :=
  match parser tokens with
  | .ok program _ => .ok program
  | .error error _ => .error (error.settle tokens)

end Program

end TinyImp
