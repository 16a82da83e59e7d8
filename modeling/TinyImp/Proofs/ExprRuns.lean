import TinyImp.Proofs.Atomicity

/-! # Runs of the code of an expression

The code of an expression can be run by itself, on any machine: it jumps nowhere and declares nothing,
so the run starts on the machine as it is. Temporaries in use, whatever they hold, stay as they are.
-/

namespace TinyImp

namespace Machine

/-- The run of the code ends after these events, in this way, and leaves this machine. -/
def Ends (machine : Machine) (code : Code) (events : List Event) (ending : Ending)
    (after : Machine) : Prop :=
  ∃ steps, (machine.run code steps).events.toList = events ∧
    (machine.run code steps).status.ending? = some ending ∧
    (machine.run code steps).state.machine? = some after

theorem start_of_undeclaring {code : Code} (machine : Machine) (undeclaring : code.declared = []) :
    Execution.start machine code = { machine } := by
  rw [Execution.start, undeclaring]
  rfl

theorem ends_of_steps {code : Code} {machine : Machine} {n : Nat} {events : List Event}
    {last : Execution} {status : Status} {ending : Ending} (linked : code.undefinedJump? = none)
    (undeclaring : code.declared = [])
    (steps : Steps (Execution.step code.routine) n { machine } events last)
    (ends : (last.step code.routine).ended? = some status) (ended : status.ending? = some ending) :
    machine.Ends code events ending last.machine := by
  have ends' : (Engine.step (.code code.routine last)).ended? = some status := by
    rw [← ends]
    cases taken : last.step code.routine <;> simp [Engine.step, taken, Step.map, Step.ended?]
  have isRun : machine.run code (n + 1) =
      { state := .code code.routine last, events := events.toArray, status } := by
    rw [run_of_defined linked, start_of_undeclaring machine undeclaring]
    exact Run.after_of_ends Engine.step_atomic steps.of_execution ends' 0
  refine ⟨n + 1, ?_, ?_, ?_⟩
  · simp [isRun]
  · rw [isRun, ended]
  · rw [isRun, Engine.machine?]

end Machine

namespace Expr

theorem lower_linked (expr : Expr) (bound : Nat) :
    (expr.lower bound).code.undefinedJump? = none := by
  rw [Code.undefinedJump?_eq_none_iff]
  rintro ⟨instruction, member, label, jumps, -⟩
  rw [(expr.lower_plain bound instruction member).straight] at jumps
  cases jumps

/-- The code of an expression, run by itself, comes to the value or to the fault of the expression. -/
theorem lower_ends (expr : Expr) (bound : Nat) (machine : Machine) :
    ∃ after, machine.Keeps bound after ∧
      match expr.eval machine.store with
      | .ok value =>
          machine.Ends (expr.lower bound).code [] .finished after ∧
            after.read (expr.lower bound).result = .ok value
      | .error error => machine.Ends (expr.lower bound).code [] (.failed error.fault) after := by
  have computed := expr.lower_computes machine (Segment.whole_zero (expr.lower bound).code)
  have linked := expr.lower_linked bound
  have undeclaring := expr.lower_declared bound
  generalize expr.eval machine.store = outcome at computed
  cases computed with
  | @value result after reached readResult =>
      have stops : Step.ended? (Execution.step (expr.lower bound).code.routine
          { index := 0 + (expr.lower bound).code.length, machine := after }) = some .finished := by
        rw [Execution.step_past_end (Nat.le_add_left _ _), Step.ended?]
      exact ⟨after, reached.keeps,
        Machine.ends_of_steps linked undeclaring reached.steps stops rfl, readResult⟩
  | @fault error offset after steps keeps fails here =>
      have stops := congrArg Step.ended? fails
      exact ⟨after, keeps, Machine.ends_of_steps linked undeclaring steps stops rfl⟩

end Expr

/-- **The code that an expression adds to a draft computes the expression**, on any machine and behind
    any number of temporaries. The run shows no event, and changes neither a variable nor a temporary
    that the draft has used before. It finishes with the value where the result is found, or fails as
    evaluation does. -/
theorem expression_code_is_correct (draft : Draft) (expr : Expr) (machine : Machine) :
    ∃ code after, (draft.expr expr).1.code = draft.code ++ code ∧
      machine.Keeps draft.counters.temporaries after ∧
      match expr.eval machine.store with
      | .ok value =>
          machine.Ends code [] .finished after ∧ after.read (draft.expr expr).2 = .ok value
      | .error error => machine.Ends code [] (.failed error.fault) after := by
  obtain ⟨after, keeps, ends⟩ := expr.lower_ends draft.counters.temporaries machine
  exact ⟨(expr.lower draft.counters.temporaries).code, after, rfl, keeps, ends⟩

end TinyImp
