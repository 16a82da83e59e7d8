import TinyImp.CommandLine

/-! # The command

Reads the arguments and the input, and prints listings, printed values, notes and errors as
they come.
-/

namespace TinyImp.CommandLine

def complain (line : String) : IO Unit := do
  (← IO.getStderr).putStrLn line

/-- Show the notes that the verbosity admits. -/
def showNotes (request : Request) (notes : Array Note) : IO Unit :=
  for note in notes do
    if note.shownAt request.options.verbosity then complain note.render

/-- Note an event, and print the value that it prints. -/
def showEvent (request : Request) (event : Option Event) : IO Unit := do
  if let some event := event then
    showNotes request #[.observed request.backend event]
    if let some value := event.printed? then IO.println value.text

/-- Run an engine to its end, if it has one, and print what it prints. -/
partial def drive (request : Request) (engine : Engine) : IO UInt32 := do
  match engine.step with
  | .finish => return 0
  | .fail error event _ =>
      showEvent request event
      complain error.message
      return 1
  | .next event engine =>
      showEvent request event
      drive request engine

/-- Compile, list and run a program. -/
def execute (request : Request) (source : String) : IO UInt32 := do
  let (outcome, notes) := (Build.compilation source).outcome
  showNotes request notes
  match outcome with
  | .error error =>
      complain error.message
      return 1
  | .ok compilation =>
      IO.print (request.listing compilation)
      match request.engine compilation with
      | .error error =>
          complain error.message
          return 1
      | .ok none => return 0
      | .ok (some engine) => drive request engine

/-- Obey the arguments. The result is the exit status. -/
def respond (arguments : List String) : IO UInt32 := do
  match parse arguments with
  | .error .version =>
      IO.println version
      return 0
  | .error .help =>
      IO.print help
      return 0
  | .error (.misuse misuse) =>
      complain ("error: " ++ Describe.describe misuse)
      return 2
  | .ok request =>
      if request.isPath then
        match ← (IO.FS.readFile request.input).toBaseIO with
        | .ok source => execute request source
        | .error _ =>
            complain (unreadable request.input)
            return 1
      else execute request request.input

end TinyImp.CommandLine

def main (arguments : List String) : IO UInt32 :=
  TinyImp.CommandLine.respond arguments
