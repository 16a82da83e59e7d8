import TinyImp.Token.Basic

/-! # From text to tokens

At each place that is not blank the longest lexeme is taken, and reserved words win over
identifiers. Blanks separate lexemes and are dropped; the first place where no lexeme begins is an
error.
-/

namespace TinyImp

/-- The first place at which no token begins, and the text refused there. -/
structure LexError extends Position where
  text : String
  deriving Repr, DecidableEq

def LexError.message (error : LexError) : String :=
  "Error on line " ++ toString error.line ++ ", column " ++ toString error.column ++
    ": Unrecognized token '" ++ error.text ++ "'."

namespace Token

/-- Space, tab, carriage return, form feed and line feed separate tokens. -/
def isBlank (c : Char) : Bool :=
  c = ' ' || c = '\t' || c = '\r' || c = '\x0c' || c = '\n'

def isWordStart (c : Char) : Bool :=
  c.isAlpha || c = '_'

def isWordPart (c : Char) : Bool :=
  c.isAlphanum || c = '_'

def isQuotable (c : Char) : Bool :=
  c ≠ '"' && c ≠ '\n'

/-- A numeral at the head of a text that begins with a digit. A point belongs to it only if a digit
    follows. -/
def numeral (text : List Char) : Kind × Nat :=
  let whole := text.takeWhile Char.isDigit
  match text.drop whole.length with
  | '.' :: rest =>
      let fraction := rest.takeWhile Char.isDigit
      if fraction = [] then (.number, whole.length)
      else (.decimal, whole.length + 1 + fraction.length)
  | _ => (.number, whole.length)

/-- A quoted text, given what follows its opening quote. -/
def quotation? (rest : List Char) : Option (Kind × Nat) :=
  let body := rest.takeWhile isQuotable
  match rest.drop body.length with
  | '"' :: _ => some (.quoted, body.length + 2)
  | _ => none

/-- An operator or delimiter at the head of a text. -/
def symbol? (text : List Char) : Option (Kind × Nat) :=
  Kind.symbols.findSome? fun kind =>
    kind.spelling?.bind fun spelling =>
      if spelling.toList.isPrefixOf text then some (kind, spelling.length) else none

/-- The longest lexeme at the head of a text: its kind and its length. -/
def lexeme? : List Char → Option (Kind × Nat)
  | [] => none
  | c :: rest =>
      if isWordStart c then
        let word := c :: rest.takeWhile isWordPart
        some (Kind.ofWord (String.ofList word), word.length)
      else if c.isDigit then some (numeral (c :: rest))
      else if c = '"' then quotation? rest
      else symbol? (c :: rest)

/-- The part of a text that is refused when no lexeme begins it: as much of it as some lexeme could
    begin with, and at least one character. This is an open quotation to the end of its line, and
    otherwise one character. -/
def refused : List Char → List Char
  | '"' :: rest => '"' :: rest.takeWhile (· ≠ '\n')
  | text => text.take 1

/-- Where the scanner stands: the line, the offset at which the line begins, and the offset of the next
    character. -/
structure Cursor where
  line : Nat := 1
  lineStart : Nat := 0
  offset : Nat := 0

namespace Cursor

def position (cursor : Cursor) : Position where
  line := cursor.line
  column := cursor.offset - cursor.lineStart + 1

/-- Behind one more character of the line. -/
def pass (cursor : Cursor) : Cursor :=
  { cursor with offset := cursor.offset + 1 }

/-- Behind a line feed. -/
def newLine (cursor : Cursor) : Cursor where
  line := cursor.line + 1
  lineStart := cursor.offset + 1
  offset := cursor.offset + 1

end Cursor

/-- The tokens of a text at a cursor, after its first `skip` characters, which belong to the token
    before. -/
def scan (cursor : Cursor) (skip : Nat) : List Char → Except LexError (List Token)
  | [] => .ok []
  | c :: rest =>
      match skip with
      | skip + 1 => scan cursor.pass skip rest
      | 0 =>
          if c = '\n' then scan cursor.newLine 0 rest
          else if isBlank c then scan cursor.pass 0 rest
          else
            match lexeme? (c :: rest) with
            | none => .error { cursor.position with text := String.ofList (refused (c :: rest)) }
            | some (kind, length) => do
                let lexeme := String.ofList ((c :: rest).take length)
                let tokens ← scan cursor.pass (length - 1) rest
                return { cursor.position with kind, lexeme } :: tokens

end Token

/-- The tokens of a source text, in order. -/
def tokenize (source : String) : Except LexError (List Token) :=
  Token.scan {} 0 source.toList

end TinyImp
