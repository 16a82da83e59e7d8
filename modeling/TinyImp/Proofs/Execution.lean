import Mathlib.Tactic.SplitIfs
import TinyImp.Proofs.Runs

/-! # Execution of a segment of code

A segment is a part of a list that stands at an index of it. Segments of code are what the machine
executes in a row; each instruction there is one step, whose effect is that of `Machine.perform`.
-/

namespace TinyImp

/-- The list `part` stands in `whole` from an index on. -/
def Segment {α : Type} (whole : List α) (index : Nat) (part : List α) : Prop :=
  part <+: whole.drop index

namespace Segment

variable {α : Type} {whole part rest : List α} {index : Nat} {a : α}

theorem whole_zero (whole : List α) : Segment whole 0 whole := by
  simp [Segment]

@[simp]
theorem nil : Segment whole index [] := by
  simp [Segment]

@[simp]
theorem cons_iff : Segment whole index (a :: part) ↔
    whole[index]? = some a ∧ Segment whole (index + 1) part := by
  rw [Segment, Segment]
  cases at_index : whole[index]? with
  | none =>
      have short : whole.length ≤ index := by simpa using at_index
      simp [List.drop_eq_nil_of_le short]
  | some b =>
      obtain ⟨inside, rfl⟩ := List.getElem?_eq_some_iff.mp at_index
      rw [List.drop_eq_getElem_cons inside, List.cons_prefix_cons]
      simp [eq_comm]

@[simp]
theorem append_iff : Segment whole index (part ++ rest) ↔
    Segment whole index part ∧ Segment whole (index + part.length) rest := by
  induction part generalizing index with
  | nil => simp
  | cons a part ih =>
      simp only [List.cons_append, cons_iff, ih, List.length_cons, and_assoc]
      rw [Nat.add_right_comm, ← Nat.add_assoc]

theorem of_prefix {longer : List α} (segment : Segment whole index longer) (starts : part <+: longer) :
    Segment whole index part :=
  starts.trans segment

theorem getElem? {offset : Nat} (segment : Segment whole index part) (found : part[offset]? = some a) :
    whole[index + offset]? = some a := by
  obtain ⟨rest, joined⟩ := segment
  rw [← List.getElem?_drop, ← joined]
  exact List.getElem?_append_left (List.getElem?_eq_some_iff.mp found).1 ▸ found

end Segment

/-- A machine about to run a code: the variables that the code declares exist. -/
def Execution.start (machine : Machine) (code : Code) : Execution where
  machine := { machine with store := machine.store.declareAll code.declared }

theorem Machine.run_declares (machine : Machine) (names : List String) :
    (names.forM declare).run machine =
      .ok () { machine with store := machine.store.declareAll names } := by
  induction names generalizing machine with
  | nil => rfl
  | cons name names ih => exact ih { machine with store := machine.store.declare name }

section

variable {code : Code} {error : RuntimeError}

/-- A code that can be linked has all its declarations made. -/
theorem Machine.prepare_of_defined (linked : code.undefinedJump? = none) (machine : Machine) :
    (prepare code).run machine = .ok code.routine (Execution.start machine code).machine := by
  rw [prepare, Routine.link, linked]
  show (code.declared.forM declare >>= fun _ => pure code.routine).run machine = _
  rw [EStateM.run_bind, run_declares]
  rfl

/-- A code that cannot be linked leaves the machine as it is: no declaration is made. -/
theorem Machine.prepare_of_undefined (found : code.undefinedJump? = some error) (machine : Machine) :
    (prepare code).run machine = .error error machine := by
  rw [prepare, Routine.link, found]
  rfl

theorem Engine.ofCode_of_defined (linked : code.undefinedJump? = none) (machine : Machine) :
    Engine.ofCode machine code = .ok (.code code.routine (.start machine code)) := by
  rw [Engine.ofCode, Machine.prepare_of_defined linked]
  rfl

theorem Engine.ofCode_of_undefined (found : code.undefinedJump? = some error) (machine : Machine) :
    Engine.ofCode machine code = .error error := by
  rw [Engine.ofCode, Machine.prepare_of_undefined found]

end

namespace Execution

variable {code : Code} {index : Nat} {machine : Machine} {instruction : Instruction}

theorem step_of_perform {jump : Option Nat} {after : Ongoing Machine}
    (here : code[index]? = some instruction)
    (performed : (Machine.perform code.targets instruction).run { state := machine } =
      .ok jump after) :
    Execution.step code.routine { index, machine } =
      .next after.event { index := jump.getD (index + 1), machine := after.state } := by
  simp [Execution.step, Code.routine, here, Action.step, performed]

theorem step_of_fault {fault : RuntimeFault} {after : Ongoing Machine}
    (here : code[index]? = some instruction)
    (performed : (Machine.perform code.targets instruction).run { state := machine } =
      .error fault after) :
    Execution.step code.routine { index, machine } =
      .fail { fault, line := index + 1 } none { index, machine } := by
  obtain rfl := Machine.perform_atomic code.targets instruction _ _ _ performed
  simp [Execution.step, Code.routine, here, Action.step, performed]

/-- A step that fails does so in the instruction whose number it reports. -/
theorem perform_of_fail {routine : Routine} {execution left : Execution} {error : RuntimeError}
    {event : Option Event} (failed : execution.step routine = .fail error event left) :
    ∃ instruction, routine.code[execution.index]? = some instruction ∧
      (Machine.perform routine.targets instruction).run { state := execution.machine } =
        .error error.fault { state := execution.machine } ∧
      error.line = execution.index + 1 := by
  unfold Execution.step at failed
  cases here : routine.code[execution.index]? with
  | none => simp [here] at failed
  | some instruction =>
      simp only [here] at failed
      obtain ⟨-, -, fault, performed, isError⟩ :=
        (Machine.perform_atomic routine.targets instruction).of_step_fail failed
      subst isError
      exact ⟨instruction, rfl, performed, rfl⟩

theorem step_past_end (past : code.length ≤ index) :
    Execution.step code.routine { index, machine } = .finish := by
  simp [Execution.step, Code.routine, past]

end Execution

end TinyImp
