import TinyImp.Fault
import TinyImp.Token.Basic

/-! # Parsers over token lists

A parser takes tokens from the front of a list and ends in a result or an error, with the tokens
that remain in either case. What a parser merely looks at remains; what it takes and then refuses
does not.

Nesting is limited: each parenthesis, prefix operator and brace opens a level. Parsers that open
levels have a parameter `room`, the number of levels that may still be opened.
-/

namespace TinyImp

/-- How many levels may enclose each other. -/
def maxNesting : Nat := 128

/-- How high the tree of a binary operation may be. -/
def maxHeight : Nat := 256

/-- The levels that may still be opened inside `depth` levels. -/
def roomAt (depth : Nat) : Nat :=
  maxNesting - depth

/-- What is wrong with a token list. Tokens are named by their text. -/
inductive SyntaxFault where
  /-- No expression begins with this token. -/
  | unexpected (lexeme : String)
  /-- An identifier should stand in the place of this token. -/
  | notAnIdentifier (lexeme : String)
  /-- No statement begins with this token. -/
  | notAStatement (lexeme : String)
  /-- A certain token should stand here; `none` is the end of the input. -/
  | expected (kind : Token.Kind) (found : Option String)
  | unexpectedEnd
  | literalTooLarge (literal : String)
  | nestingTooDeep
  deriving Repr, DecidableEq

instance : Describe SyntaxFault where
  describe
    | .unexpected lexeme => "Unexpected token: " ++ Token.describeFound (some lexeme) ++ "."
    | .notAnIdentifier lexeme =>
        "Unexpected token: expected identifier, found " ++ Token.describeFound (some lexeme) ++ "."
    | .notAStatement lexeme =>
        "Unexpected token: " ++ Token.describeFound (some lexeme) ++ " cannot start a statement."
    | .expected kind found =>
        "Expected '" ++ kind.spelling?.getD kind.name ++ "' but found " ++
          Token.describeFound found ++ "."
    | .unexpectedEnd => "Unexpected end of input."
    | .literalTooLarge literal => "Literal " ++ literal ++ " is too large."
    | .nestingTooDeep => "Nesting is too deep."

abbrev SyntaxError := Located SyntaxFault

/-- Parsers keep the remaining tokens on success and on failure. -/
abbrev Parser := EStateM SyntaxError (List Token)

namespace Parser

/-- The line of a fault at the end of the input, which is not known there. -/
def unknownLine : Nat := 0

/-- Stop with a fault on a line. -/
def fail {α : Type} (fault : SyntaxFault) (line : Nat) : Parser α :=
  throw { fault, line }

/-- The next token, which remains. -/
def peek : Parser (Option Token) :=
  fun tokens => .ok tokens.head? tokens

/-- Take the next token. -/
def next : Parser (Option Token) :=
  fun tokens => .ok tokens.head? tokens.tail

/-- Take the next token if `choose` has a use for it. -/
def nextMatching {α : Type} (choose : Token → Option α) : Parser (Option α) :=
  fun tokens =>
    match tokens with
    | [] => .ok none []
    | token :: rest =>
        match choose token with
        | some a => .ok (some a) rest
        | none => .ok none (token :: rest)

/-- Take the next token if it is of this kind. -/
def nextIf (kind : Token.Kind) : Parser (Option Token) :=
  nextMatching fun token => if token.kind = kind then some token else none

/-- The fault of a token, or of the end of the input, that stands in the place of another. -/
def misplaced {α : Type} (kind : Token.Kind) : Option Token → Parser α
  | some token => fail (.expected kind (some token.lexeme)) token.line
  | none => fail (.expected kind none) unknownLine

/-- Take the next token, which has to be of this kind. -/
def expect (kind : Token.Kind) : Parser Token := do
  match ← nextIf kind with
  | some token => return token
  | none => misplaced kind (← peek)

/-- Take the next token, which has to be an identifier. -/
def identifier : Parser Token := do
  match ← next with
  | some token =>
      if token.kind = .identifier then return token
      else fail (.notAnIdentifier token.lexeme) token.line
  | none => fail .unexpectedEnd unknownLine

/-- At most `rounds` results of `item`, up to its first `none`. -/
def manyWithin {α : Type} (item : Parser (Option α)) : Nat → Parser (List α)
  | 0 => return []
  | rounds + 1 => do
      match ← item with
      | none => return []
      | some a => return a :: (← manyWithin item rounds)

/-- The results of `item` up to its first `none`. Each result but the last takes a token, so there
    are at most as many rounds as tokens, and one more. -/
def many {α : Type} (item : Parser (Option α)) : Parser (List α) := do
  manyWithin item ((← get).length + 1)

end Parser

/-- The line on which a token list ends. -/
def endLine (tokens : List Token) : Nat :=
  match tokens.getLast? with
  | some token => token.line
  | none => 1

/-- Faults at the end of the input are reported on the line of the last token. -/
def SyntaxError.settle (tokens : List Token) (error : SyntaxError) : SyntaxError :=
  match error with
  | { fault := .unexpectedEnd, line := 0 } => { error with line := endLine tokens }
  | { fault := .expected _ _, line := 0 } => { error with line := endLine tokens }
  | _ => error

end TinyImp
