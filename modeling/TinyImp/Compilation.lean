import TinyImp.Code.Lowering
import TinyImp.Journal
import TinyImp.Scope.Check
import TinyImp.Statement.Parser
import TinyImp.Token.Scan

/-! # From source to code

The stages in order: tokens, program, symbols, code. The first stage that fails ends the work, and
the notes of the stages before it are kept.
-/

namespace TinyImp

/-- What can be wrong with a source, or with its run. -/
inductive Error where
  | lexical (error : LexError)
  | syntactic (error : SyntaxError)
  | scope (error : ScopeError)
  | runtime (error : RuntimeError)
  deriving Repr, DecidableEq

def Error.message : Error → String
  | .lexical error => error.message
  | .syntactic error => error.message
  | .scope error => error.message
  | .runtime error => error.message

/-- A program that passed the scope check. -/
structure Checked where
  tokens : List Token
  program : Program
  symbols : SymbolTable

/-- Everything that is made of one source. -/
structure Compilation extends Checked where
  code : Code

/-- The note on a finished draft. -/
def Draft.note (draft : Draft) : Note :=
  .lowered draft.code.length draft.counters.temporaries draft.counters.labels

/-- Work in stages, each of which leaves a note. -/
abbrev Build := EStateM Error (Array Note)

namespace Build

/-- A stage: its outcome, and the note it leaves if it succeeds. -/
def stage {ε α : Type} (outcome : Except ε α) (fault : ε → Error) (note : α → Note) : Build α :=
  fun notes =>
    match outcome with
    | .ok a => .ok a (notes.push (note a))
    | .error error => .error (fault error) notes

def tokens (source : String) : Build (List Token) :=
  stage (tokenize source) .lexical fun tokens => .lexed tokens.length

def program (tokens : List Token) : Build Program :=
  stage (Program.ofTokens tokens) .syntactic fun program => .parsed program.length

def symbols (program : Program) : Build SymbolTable :=
  stage program.check .scope fun symbols => .checked symbols.size

def draft (program : Program) : Build Draft :=
  stage (.ok program.lower) id Draft.note

/-- The stages that do not look at code. -/
def checked (source : String) : Build Checked := do
  let tokens ← tokens source
  let program ← program tokens
  let symbols ← symbols program
  return { tokens, program, symbols }

/-- All stages. -/
def compilation (source : String) : Build Compilation := do
  let checked ← checked source
  let draft ← draft checked.program
  return { checked with code := draft.code }

/-- The outcome of some work, and its notes. -/
def outcome {α : Type} (build : Build α) : Except Error α × Array Note :=
  match build #[] with
  | .ok a notes => (.ok a, notes)
  | .error error notes => (.error error, notes)

end Build

def parse (source : String) : Except Error Program :=
  (do Build.program (← Build.tokens source)).outcome.1

/-- The program of a source, with its symbols. -/
def check (source : String) : Except Error Checked :=
  (Build.checked source).outcome.1

/-- Everything that is made of a source. -/
def compile (source : String) : Except Error Compilation :=
  (Build.compilation source).outcome.1

end TinyImp
