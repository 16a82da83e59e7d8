import TinyImp.Code.Instruction
import TinyImp.Run
import TinyImp.Store

/-! # The machine

A machine holds variables and temporaries. Before code is run, every label that it jumps to must be
defined, and every variable that it declares comes into existence. Faults are reported on the number
of the instruction, counted from 1.
-/

namespace TinyImp

/-- Variables and temporaries. -/
@[ext]
structure Machine where
  store : Store := {}
  temporaries : Std.ExtTreeMap Nat Value := ∅

/-- The index after the definition of each label. -/
abbrev Targets := Std.ExtTreeMap Label Nat

namespace Machine

def read (machine : Machine) : Operand → Except RuntimeFault Value
  | .const value => .ok value
  | .temporary number =>
      match machine.temporaries[number]? with
      | some value => .ok value
      | none => .error (.unboundVariable (Operand.temporary number).render)

def fetch (machine : Machine) (name : String) : Except RuntimeFault Value :=
  match machine.store.get? name with
  | some value => .ok value
  | none => .error (.unboundVariable name)

def set (machine : Machine) (number : Nat) (value : Value) : Machine :=
  { machine with temporaries := machine.temporaries.insert number value }

/-- Give an operand a value. Only a temporary can be written. -/
def write (value : Value) : Operand → Action RuntimeFault Machine Unit
  | .temporary number => .alter fun machine => machine.set number value
  | .const constant => throw (.unboundVariable (Operand.const constant).render)

/-- Give a variable a value. -/
def assign (name : String) (value : Value) : Action RuntimeFault Machine Unit := do
  let store ← .look fun machine => machine.store.assign name value
  .alter fun machine => { machine with store }
  .emit (.assigned name value)

/-- Where a jump leads. -/
def target (targets : Targets) (label : Label) : Except RuntimeFault Nat :=
  match targets[label]? with
  | some index => .ok index
  | none => .error (.undefinedLabel label.render)

/-- Perform one instruction. The result is the index to go on from, if it is not the next one. -/
def perform (targets : Targets) : Instruction → Action RuntimeFault Machine (Option Nat)
  | .declare _ | .mark _ => return none
  | .load register name => do
      let value ← .look fun machine => machine.fetch name
      write value register
      return none
  | .store name source => do
      let value ← .look fun machine => machine.read source
      assign name value
      return none
  | .compute op register left right => do
      let leftValue ← .look fun machine => machine.read left
      let rightValue ← .look fun machine => machine.read right
      let value ← liftExcept (op.apply leftValue rightValue)
      write value register
      return none
  | .print source => do
      let value ← .look fun machine => machine.read source
      .emit (.printed value)
      return none
  | .jump label => do
      let index ← liftExcept (target targets label)
      return some index
  | .jumpIfZero source label => do
      let value ← .look fun machine => machine.read source
      if value.isTrue then return none
      else
        let index ← liftExcept (target targets label)
        return some index

end Machine

namespace Code

/-- The index after the definition of each label. Of several definitions the last one counts. -/
def targets (code : Code) : Targets :=
  code.zipIdx.foldl
    (fun targets (instruction, index) =>
      match instruction with
      | .mark label => targets.insert label (index + 1)
      | _ => targets)
    ∅

/-- The first jump to a label that is not defined. -/
def undefinedJump? (code : Code) : Option RuntimeError :=
  code.zipIdx.findSome? fun (instruction, index) =>
    match instruction.jumpTarget? with
    | some label =>
        if code.targets.contains label then none
        else some { fault := .undefinedLabel label.render, line := index + 1 }
    | none => none

def declared (code : Code) : List String :=
  code.filterMap Instruction.declared?

end Code

/-- Code with the places of its labels. -/
structure Routine where
  code : Array Instruction
  targets : Targets

/-- A code with the places of the labels that it defines, whether or not all its jumps find one. -/
def Code.routine (code : Code) : Routine where
  code := code.toArray
  targets := code.targets

/-- Find the labels of a code. -/
def Routine.link (code : Code) : Except RuntimeError Routine :=
  match code.undefinedJump? with
  | some error => .error error
  | none => .ok code.routine

namespace Machine

def declare (name : String) : EStateM RuntimeError Machine Unit :=
  modify fun machine => { machine with store := machine.store.declare name }

/-- Make a machine ready for a code: first link the code, then make its declarations one after the
    other. -/
def prepare (code : Code) : EStateM RuntimeError Machine Routine := do
  let routine ← liftExcept (Routine.link code)
  code.declared.forM declare
  return routine

end Machine

/-- The index of the next instruction, and the machine before it. -/
structure Execution where
  index : Nat := 0
  machine : Machine

/-- Run the next instruction. Past the last one the run ends. -/
def Execution.step (routine : Routine) (execution : Execution) : Step Execution :=
  match routine.code[execution.index]? with
  | none => .finish
  | some instruction =>
      (Machine.perform routine.targets instruction).step execution.machine
        (fun fault => { fault, line := execution.index + 1 })
        (fun machine => { execution with machine })
        fun jump machine => { index := jump.getD (execution.index + 1), machine }

end TinyImp
