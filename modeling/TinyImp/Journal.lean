import TinyImp.Run

/-! # Notes on what was done

Every stage that succeeds leaves a note, and so does every event of a run.
-/

namespace TinyImp

/-- The two ways to run a program. -/
inductive Backend where
  /-- Walk the statements. -/
  | tree
  /-- Execute the three-address code. -/
  | code
  deriving Repr, DecidableEq

def Backend.ofName? : String → Option Backend
  | "tree" => some .tree
  | "tac" => some .code
  | _ => none

/-- How much detail a note gives. -/
inductive Level where
  | debug
  | trace
  deriving Repr, DecidableEq

namespace Level

def name : Level → String
  | .debug => "DEBUG"
  | .trace => "TRACE"

/-- How often more detail has to be asked for before notes of this level are shown. -/
def verbosity : Level → Nat
  | .debug => 2
  | .trace => 3

end Level

/-- A note on a stage or an event. -/
inductive Note where
  | lexed (tokens : Nat)
  | parsed (statements : Nat)
  | checked (symbols : Nat)
  | lowered (instructions temporaries labels : Nat)
  /-- An event of a run by one of the back ends. -/
  | observed (backend : Backend) (event : Event)
  deriving Repr, DecidableEq

namespace Note

def level : Note → Level
  | .observed _ _ => .trace
  | _ => .debug

/-- What happened, with the numbers that belong to it. -/
def text : Note → String
  | .lexed tokens => "lexed source tokens=" ++ toString tokens
  | .parsed statements => "parsed program statements=" ++ toString statements
  | .checked symbols => "semantic check passed symbols=" ++ toString symbols
  | .lowered instructions temporaries labels =>
      "generated three-address code instructions=" ++ toString instructions ++
        " temporaries=" ++ toString temporaries ++ " labels=" ++ toString labels
  | .observed .tree (.assigned name value) =>
      "assigned variable=" ++ name ++ " value=" ++ value.text
  | .observed .code (.assigned name value) =>
      "stored variable=" ++ name ++ " value=" ++ value.text
  | .observed _ (.printed value) => "printed value=" ++ value.text

def render (note : Note) : String :=
  note.level.name ++ " " ++ note.text

/-- Whether a note is shown at a verbosity. -/
def shownAt (verbosity : Nat) (note : Note) : Bool :=
  note.level.verbosity ≤ verbosity

end Note

end TinyImp
