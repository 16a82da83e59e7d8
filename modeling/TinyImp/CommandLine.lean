import TinyImp.Engine

/-! # The command line

One argument is the input: a program, or with `--file` the path of one. Options choose what is
listed, which back end runs the program, and how much detail is noted.
-/

namespace TinyImp.CommandLine

/-- Options that are given at most once and have no value. -/
inductive Switch where
  | file
  | tokens
  | tree
  | symbols
  | code
  | noRun
  deriving Repr, DecidableEq

/-- What is wrong with the arguments. -/
inductive Misuse where
  | unknownOption (text : String)
  | unneededValue (text : String)
  | missingValue (option : String)
  | badValue (value : String)
  | repeated (option : String)
  | missingInput
  | extraInput (text : String)
  deriving Repr, DecidableEq

instance : Describe Misuse where
  describe
    | .unknownOption text => "unknown option '" ++ text ++ "'"
    | .unneededValue text => "unneeded value in '" ++ text ++ "'"
    | .missingValue option => "missing value for '" ++ option ++ "'"
    | .badValue value => "invalid back end '" ++ value ++ "'"
    | .repeated option => "option '" ++ option ++ "' given twice"
    | .missingInput => "missing input"
    | .extraInput text => "unexpected argument '" ++ text ++ "'"

/-- Why the arguments do not ask for a program to be compiled. -/
inductive Diversion where
  | version
  | help
  | misuse (misuse : Misuse)
  deriving Repr, DecidableEq

/-- What the arguments ask for. -/
structure Options where
  switches : List Switch := []
  backend : Option Backend := none
  verbosity : Nat := 0
  input : Option String := none
  deriving Repr, DecidableEq

namespace Options

def has (options : Options) (switch : Switch) : Bool :=
  options.switches.contains switch

def addSwitch (options : Options) (text : String) (switch : Switch) : Except Diversion Options :=
  if options.has switch then .error (.misuse (.repeated text))
  else .ok { options with switches := switch :: options.switches }

def addVerbosity (options : Options) : Options :=
  { options with verbosity := options.verbosity + 1 }

def setBackend (options : Options) (value : String) : Except Diversion Options :=
  match Backend.ofName? value, options.backend with
  | none, _ => .error (.misuse (.badValue value))
  | some _, some _ => .error (.misuse (.repeated "--backend"))
  | some backend, none => .ok { options with backend := some backend }

def setInput (options : Options) (text : String) : Except Diversion Options :=
  match options.input with
  | some _ => .error (.misuse (.extraInput text))
  | none => .ok { options with input := some text }

/-- An option of one letter. -/
def addLetter (options : Options) (letter : Char) : Except Diversion Options :=
  match letter with
  | 'f' => options.addSwitch "-f" .file
  | 'v' => .ok options.addVerbosity
  | 'V' => .error .version
  | 'h' => .error .help
  | _ => .error (.misuse (.unknownOption (String.ofList ['-', letter])))

/-- An option written out, without a value. -/
def addWord (options : Options) (word : String) : Except Diversion Options :=
  match word with
  | "--file" => options.addSwitch word .file
  | "--tokens" => options.addSwitch word .tokens
  | "--ast" => options.addSwitch word .tree
  | "--symbols" => options.addSwitch word .symbols
  | "--tac" => options.addSwitch word .code
  | "--no-run" => options.addSwitch word .noRun
  | "--verbose" => .ok options.addVerbosity
  | "--version" => .error .version
  | "--help" => .error .help
  | _ => .error (.misuse (.unknownOption word))

end Options

/-- The forms that an argument can have before the end of the options. -/
inductive Form where
  /-- Two dashes end the options. -/
  | endOfOptions
  /-- The back end follows as the next argument. -/
  | backend
  /-- The back end follows after an equals sign. -/
  | backendValue (value : String)
  /-- Another option with a value, which none of them takes. -/
  | withValue
  /-- An option written out. -/
  | word
  /-- Options of one letter, joined. -/
  | letters (letters : List Char)
  /-- Anything else; a single dash too. -/
  | plain
  deriving Repr, DecidableEq

def form (argument : String) : Form :=
  match argument.toList with
  | ['-', '-'] => .endOfOptions
  | '-' :: '-' :: rest =>
      if rest = "backend".toList then .backend
      else if "backend=".toList.isPrefixOf rest then .backendValue (String.ofList (rest.drop 8))
      else if rest.contains '=' then .withValue
      else .word
  | '-' :: letter :: rest => .letters (letter :: rest)
  | _ => .plain

/-- Read arguments from left to right. The first that cannot be obeyed, or that asks for the version
    or for help, ends the reading. -/
def read (options : Options) : List String → Except Diversion Options
  | [] => .ok options
  | argument :: rest =>
      match form argument with
      | .endOfOptions => rest.foldlM Options.setInput options
      | .backend =>
          match rest with
          | [] => .error (.misuse (.missingValue argument))
          | value :: rest =>
              if form value = .plain then do
                let options ← options.setBackend value
                read options rest
              else .error (.misuse (.missingValue argument))
      | .backendValue value => do
          let options ← options.setBackend value
          read options rest
      | .withValue => .error (.misuse (.unneededValue argument))
      | .word => do
          let options ← options.addWord argument
          read options rest
      | .letters letters => do
          let options ← letters.foldlM Options.addLetter options
          read options rest
      | .plain => do
          let options ← options.setInput argument
          read options rest

/-- A complete request: the options and the input. -/
structure Request where
  options : Options
  input : String

/-- What the arguments of the command ask for. -/
def parse (arguments : List String) : Except Diversion Request := do
  let options ← read {} arguments
  match options.input with
  | some input => return { options, input }
  | none => throw (.misuse .missingInput)

def name : String :=
  "minipython"

def version : String :=
  name ++ " 0.1.0"

def help : String :=
  unlines
    ["Usage: " ++ name ++ " [OPTIONS] <CONTENTS>",
      "",
      "Options:",
      "  -f, --file               Read the program from a file",
      "      --tokens             List the tokens",
      "      --ast                List the syntax tree",
      "      --symbols            List the symbol table",
      "      --tac                List the three-address code",
      "      --backend <BACKEND>  Run by the syntax tree (tree) or by the code (tac)",
      "      --no-run             Do not run the program",
      "  -v, --verbose            Note more detail; may be repeated",
      "  -h, --help               Show this text",
      "  -V, --version            Show the version"]

/-- The message for an input file that cannot be read as text. -/
def unreadable (path : String) : String :=
  "Failed to read the input file '" ++ path ++ "'. Perhaps this file does not exist?"

namespace Request

/-- Whether the input is the path of the program. -/
def isPath (request : Request) : Bool :=
  request.options.has .file

def backend (request : Request) : Backend :=
  request.options.backend.getD .tree

/-- The listings that are asked for, in a fixed order. -/
def listing (request : Request) (compilation : Compilation) : String :=
  let part (switch : Switch) (text : String) := if request.options.has switch then text else ""
  part .tokens (unlines (compilation.tokens.map Token.render)) ++
    part .tree compilation.program.render ++
    part .symbols compilation.symbols.render ++
    part .code compilation.code.render

/-- The run that is asked for, if any. -/
def engine (request : Request) (compilation : Compilation) : Except RuntimeError (Option Engine) :=
  if request.options.has .noRun then .ok none
  else (Engine.ofCompilation compilation request.backend).map some

end Request

end TinyImp.CommandLine
