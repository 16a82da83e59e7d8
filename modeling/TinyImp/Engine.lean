import TinyImp.Code.Machine
import TinyImp.Compilation
import TinyImp.Walk

/-! # Engines

An engine is a program in the course of a run by either back end.
-/

namespace TinyImp

/-- A run in progress. -/
inductive Engine where
  | tree (walk : Walk)
  | code (routine : Routine) (execution : Execution)

namespace Engine

def step : Engine → Step Engine
  | .tree walk => walk.step.map .tree
  | .code routine execution => (execution.step routine).map (.code routine)

def store : Engine → Store
  | .tree walk => walk.store
  | .code _ execution => execution.machine.store

/-- A walk over statements in a store. -/
def ofStatements (store : Store) (statements : List Statement) : Engine :=
  .tree { pending := statements, store }

/-- A run of code on a machine. -/
def ofCode (machine : Machine) (code : Code) : Except RuntimeError Engine :=
  match (Machine.prepare code).run machine with
  | .ok routine machine => .ok (.code routine { machine })
  | .error error _ => .error error

def machine? : Engine → Option Machine
  | .tree _ => none
  | .code _ execution => some execution.machine

/-- The start of a run of code on a machine. If the machine cannot be made ready, the run has failed
    with the machine in the state that it is left in. -/
def launch (machine : Machine) (code : Code) : Run Engine :=
  match (Machine.prepare code).run machine with
  | .ok routine machine => { state := .code routine { machine } }
  | .error error machine => { state := .code code.routine { machine }, status := .failed error }

/-- A walk over a checked program, in which every declared variable is zero. -/
def ofChecked (checked : Checked) : Engine :=
  ofStatements (Store.declareAll {} checked.symbols.toList) checked.program

/-- A run of a compiled program from the start. -/
def ofCompilation (compilation : Compilation) : Backend → Except RuntimeError Engine
  | .tree => .ok (ofChecked compilation.toChecked)
  | .code => ofCode {} compilation.code

end Engine

end TinyImp
