/-! # Tokens

A token is a kind, its text in the source, and the position at which that text begins.
-/

namespace TinyImp

/-- A place in the source: line and column, both counted from 1. -/
structure Position where
  line : Nat := 1
  column : Nat := 1
  deriving Repr, DecidableEq

inductive Token.Kind where
  | intWord
  | floatWord
  | boolWord
  | stringWord
  | printWord
  | whileWord
  | ifWord
  | elseWord
  | forWord
  | trueWord
  | falseWord
  | equalEqual
  | bangEqual
  | lessEqual
  | greaterEqual
  | less
  | greater
  | andAnd
  | pipePipe
  | bang
  | plus
  | minus
  | star
  | slash
  | equals
  | leftParen
  | rightParen
  | leftBrace
  | rightBrace
  | semicolon
  | comma
  /-- Digits, a point, digits. -/
  | decimal
  /-- Digits. -/
  | number
  /-- Text between quotes on one line. -/
  | quoted
  /-- A word that is not reserved. -/
  | identifier
  /-- The end of a line; never part of a scanned list. -/
  | newLine
  /-- Other layout; never part of a scanned list. -/
  | ignored
  deriving Repr, DecidableEq

namespace Token.Kind

def keywords : List Kind :=
  [.intWord, .floatWord, .boolWord, .stringWord, .printWord, .whileWord, .ifWord, .elseWord,
    .forWord, .trueWord, .falseWord]

/-- The operators and delimiters. Those of two characters stand first, so the first spelling that
    matches is the longest. -/
def symbols : List Kind :=
  [.equalEqual, .bangEqual, .lessEqual, .greaterEqual, .andAnd, .pipePipe, .less, .greater, .bang,
    .plus, .minus, .star, .slash, .equals, .leftParen, .rightParen, .leftBrace, .rightBrace,
    .semicolon, .comma]

/-- Every kind. -/
def all : List Kind :=
  keywords ++ symbols ++ [.decimal, .number, .quoted, .identifier, .newLine, .ignored]

/-- The text of a kind whose tokens are all spelled alike. -/
def spelling? : Kind → Option String
  | .intWord => some "int"
  | .floatWord => some "float"
  | .boolWord => some "bool"
  | .stringWord => some "string"
  | .printWord => some "print"
  | .whileWord => some "while"
  | .ifWord => some "if"
  | .elseWord => some "else"
  | .forWord => some "for"
  | .trueWord => some "true"
  | .falseWord => some "false"
  | .equalEqual => some "=="
  | .bangEqual => some "!="
  | .lessEqual => some "<="
  | .greaterEqual => some ">="
  | .less => some "<"
  | .greater => some ">"
  | .andAnd => some "&&"
  | .pipePipe => some "||"
  | .bang => some "!"
  | .plus => some "+"
  | .minus => some "-"
  | .star => some "*"
  | .slash => some "/"
  | .equals => some "="
  | .leftParen => some "("
  | .rightParen => some ")"
  | .leftBrace => some "\x7b"
  | .rightBrace => some "\x7d"
  | .semicolon => some ";"
  | .comma => some ","
  | .decimal | .number | .quoted | .identifier | .newLine | .ignored => none

/-- The name under which a kind is listed. -/
def name : Kind → String
  | .intWord => "Int"
  | .floatWord => "Float"
  | .boolWord => "Bool"
  | .stringWord => "String"
  | .printWord => "Print"
  | .whileWord => "While"
  | .ifWord => "If"
  | .elseWord => "Else"
  | .forWord => "For"
  | .trueWord => "True"
  | .falseWord => "False"
  | .equalEqual => "EqualEqual"
  | .bangEqual => "BangEqual"
  | .lessEqual => "LessEqual"
  | .greaterEqual => "GreaterEqual"
  | .less => "Less"
  | .greater => "Greater"
  | .andAnd => "AndAnd"
  | .pipePipe => "PipePipe"
  | .bang => "Bang"
  | .plus => "Plus"
  | .minus => "Minus"
  | .star => "Star"
  | .slash => "Slash"
  | .equals => "Equals"
  | .leftParen => "LParen"
  | .rightParen => "RParen"
  | .leftBrace => "LBrace"
  | .rightBrace => "RBrace"
  | .semicolon => "Semicolon"
  | .comma => "Comma"
  | .decimal => "FloatNumber"
  | .number => "Number"
  | .quoted => "StringLiteral"
  | .identifier => "Identifier"
  | .newLine => "NewLine"
  | .ignored => "Ignored"

/-- The kind of a word: the reserved word it spells, or else an identifier. -/
def ofWord (word : String) : Kind :=
  (keywords.find? fun kind => kind.spelling? == some word).getD .identifier

end Token.Kind

structure Token extends Position where
  kind : Token.Kind
  lexeme : String
  deriving Repr, DecidableEq

namespace Token

def render (token : Token) : String :=
  token.kind.name ++ "('" ++ token.lexeme ++ "') at " ++ toString token.line ++ ":" ++
    toString token.column

/-- How a message refers to the text found at some place, or to the end of the input. -/
def describeFound : Option String → String
  | some lexeme => "'" ++ lexeme ++ "'"
  | none => "end of input"

end Token

end TinyImp
