import Mathlib.Data.List.Induction
import TinyImp.Proofs.Labels
import TinyImp.Proofs.Safety

/-! # Machine errors are atomic

Code is arbitrary here: labels may be missing or defined twice, temporaries read before they are
written, constants written. A jump to a label that is nowhere defined is found before the declarations
are made, and the machine is left as it was. In a run, every jump finds its label; an instruction that
fails leaves the machine and the events as it found them.
-/

namespace TinyImp

namespace Code

variable {code : Code}

/-- Every target stands behind a definition of its label. -/
theorem mark_of_targets {label : Label} {index : Nat}
    (found : code.targets[label]? = some index) :
    ∃ place, index = place + 1 ∧ code[place]? = some (.mark label) := by
  induction code using List.reverseRecOn with
  | nil => simp [targets] at found
  | append_singleton code instruction ih =>
      have earlier (known : (targets code)[label]? = some index) :
          ∃ place, index = place + 1 ∧ (code ++ [instruction])[place]? = some (.mark label) := by
        obtain ⟨place, isNext, here⟩ := ih known
        have inside := (List.getElem?_eq_some_iff.mp here).1
        exact ⟨place, isNext, by rw [List.getElem?_append_left inside, here]⟩
      rw [targets_snoc] at found
      cases instruction with
      | mark other =>
          by_cases same : other = label
          · subst same
            simp only [Std.ExtTreeMap.getElem?_insert_self, Option.some.injEq] at found
            exact ⟨code.length, found.symm, by simp⟩
          · apply earlier
            simpa [Std.ExtTreeMap.getElem?_insert, same] using found
      | _ => exact earlier found

theorem targets_of_mark {label : Label} (defined : .mark label ∈ code) :
    ∃ index, code.targets[label]? = some index := by
  induction code using List.reverseRecOn with
  | nil => cases defined
  | append_singleton code instruction ih =>
      rw [targets_snoc]
      cases instruction with
      | mark other =>
          by_cases same : other = label
          · exact ⟨code.length + 1, by simp [same]⟩
          · have different : label ≠ other := fun eq => same eq.symm
            have before : .mark label ∈ code := by
              simpa [different] using defined
            obtain ⟨index, found⟩ := ih before
            exact ⟨index, by simp [Std.ExtTreeMap.getElem?_insert, same, found]⟩
      | _ => exact ih (by simpa using defined)

theorem mem_targets_iff {label : Label} : label ∈ code.targets ↔ .mark label ∈ code := by
  rw [Std.ExtTreeMap.mem_iff_isSome_getElem?, Option.isSome_iff_exists]
  constructor
  · intro ⟨index, found⟩
    obtain ⟨place, -, here⟩ := mark_of_targets found
    exact List.mem_of_getElem? here
  · exact targets_of_mark

/-- Some jump leads to a label that the code does not define. -/
def JumpsAstray (code : Code) : Prop :=
  ∃ instruction ∈ code, ∃ label, instruction.jumpTarget? = some label ∧ .mark label ∉ code

/-- The first jump that leads to a label that the code does not define. -/
structure FirstAstray (code : Code) (index : Nat) (label : Label) : Prop where
  jumps : ∃ instruction, code[index]? = some instruction ∧ instruction.jumpTarget? = some label
  undefined : .mark label ∉ code
  first : ∀ earlier instruction other, earlier < index → code[earlier]? = some instruction →
    instruction.jumpTarget? = some other → .mark other ∈ code

theorem undefinedJump?_eq_none_iff : code.undefinedJump? = none ↔ ¬ code.JumpsAstray := by
  rw [undefinedJump?, List.findSome?_eq_none_iff]
  constructor
  · intro allDefined astray
    obtain ⟨instruction, member, label, jumps, undefined⟩ := astray
    obtain ⟨index, here⟩ := List.mem_iff_getElem?.mp member
    have refused := allDefined (instruction, index) (List.mem_zipIdx_iff_getElem?.mpr here)
    simp [jumps, mem_targets_iff, undefined] at refused
  · intro defined place member
    obtain ⟨instruction, index⟩ := place
    have here := List.mem_zipIdx_iff_getElem?.mp member
    cases jumps : instruction.jumpTarget? with
    | none => simp [jumps]
    | some label =>
        have known : .mark label ∈ code := by
          apply Decidable.of_not_not
          intro undefined
          exact defined ⟨instruction, List.mem_of_getElem? here, label, jumps, undefined⟩
        simp [jumps, mem_targets_iff, known]

/-- Of the jumps that lead astray the first one is reported, by its label and its number. -/
theorem undefinedJump?_eq_some {error : RuntimeError} (found : code.undefinedJump? = some error) :
    ∃ index label, code.FirstAstray index label ∧
      error = { fault := .undefinedLabel label.render, line := index + 1 } := by
  rw [undefinedJump?, List.findSome?_eq_some_iff] at found
  obtain ⟨before, ⟨instruction, index⟩, after, split, located, passed⟩ := found
  have position : code.zipIdx[before.length]? = some (instruction, index) := by
    rw [split]
    simp
  have here := List.mem_zipIdx_iff_getElem?.mp (List.mem_of_getElem? position)
  have isIndex : index = before.length := by
    simp only [List.getElem?_zipIdx, Option.map_eq_some_iff, Nat.zero_add] at position
    obtain ⟨_, -, same⟩ := position
    exact (Prod.mk.inj same).2.symm
  dsimp only at located here
  cases jumps : instruction.jumpTarget? with
  | none => simp [jumps] at located
  | some label =>
      simp only [jumps, Option.ite_none_left_eq_some, Option.some.injEq] at located
      obtain ⟨undefined, isError⟩ := located
      refine ⟨index, label, ⟨⟨instruction, here, jumps⟩, ?_, ?_⟩, isError.symm⟩
      · intro defined
        exact undefined (mem_targets_iff.mpr defined)
      · intro earlier other wanted isEarlier there jumpsThere
        have member : (other, earlier) ∈ before := by
          have zipped : code.zipIdx[earlier]? = some (other, earlier) := by
            simp [List.getElem?_zipIdx, there]
          rw [split, List.getElem?_append_left (isIndex ▸ isEarlier)] at zipped
          exact List.mem_of_getElem? zipped
        have defined := passed _ member
        simpa [jumpsThere, mem_targets_iff] using defined

/-- In code whose jumps are all defined, each jump leads behind a definition of its label. -/
theorem target_of_jump (defined : ¬ code.JumpsAstray) {instruction : Instruction} {label : Label}
    (member : instruction ∈ code) (jumps : instruction.jumpTarget? = some label) :
    ∃ place, Machine.target code.targets label = .ok (place + 1) ∧
      code[place]? = some (.mark label) := by
  have marked : .mark label ∈ code := by
    apply Decidable.of_not_not
    intro undefined
    exact defined ⟨instruction, member, label, jumps, undefined⟩
  obtain ⟨index, found⟩ := targets_of_mark marked
  obtain ⟨place, isNext, here⟩ := mark_of_targets found
  exact ⟨place, by simp [Machine.target, found, isNext], here⟩

end Code

theorem Opcode.apply_fault {op : Opcode} {left right : Value} {fault : RuntimeFault}
    (failed : op.apply left right = .error fault) : fault.IsArithmetic := by
  cases op with
  | add | sub | mul => exact Value.exact_fault failed
  | div =>
      have quotient : BinaryOp.div.apply left right = .error fault := failed
      exact BinaryOp.apply_fault quotient
  | _ => contradiction

/-- Some fault other than a missing label. -/
def RuntimeFault.IsUnlabelled (fault : RuntimeFault) : Prop :=
  ∀ text, fault ≠ .undefinedLabel text

theorem RuntimeFault.unboundVariable_unlabelled (name : String) :
    (RuntimeFault.unboundVariable name).IsUnlabelled := by
  intro text same
  cases same

theorem RuntimeFault.IsArithmetic.unlabelled {fault : RuntimeFault} (arithmetic : fault.IsArithmetic) :
    fault.IsUnlabelled := by
  intro text same
  subst same
  rcases arithmetic with isZero | isOverflow
  · cases isZero
  · cases isOverflow

namespace Action

variable {ε σ α β : Type} {fair : ε → Prop} {action : Action ε σ α} {next : α → Action ε σ β}

/-- The action fails, if at all, for a reason of this kind. -/
def Blames (fair : ε → Prop) (action : Action ε σ α) : Prop :=
  ∀ ongoing failure after, action.run ongoing = .error failure after → fair failure

theorem Succeeds.blames (succeeds : Succeeds action) : Blames fair action := by
  intro ongoing failure after fails
  obtain ⟨a, after', done⟩ := succeeds ongoing
  rw [done] at fails
  cases fails

theorem Blames.lift {result : Except ε α} (isFair : ∀ failure, result = .error failure → fair failure) :
    Blames fair (liftExcept result : Action ε σ α) := by
  intro ongoing failure after fails
  rw [run_lift] at fails
  cases result with
  | ok a => cases fails
  | error failure' =>
      cases fails
      exact isFair failure rfl

theorem Blames.look {view : σ → Except ε α}
    (isFair : ∀ state failure, view state = .error failure → fair failure) :
    Blames fair (look view) := by
  intro ongoing
  exact Blames.lift (isFair ongoing.state) ongoing

theorem Blames.bind (first : Blames fair action) (second : ∀ a, Blames fair (next a)) :
    Blames fair (action >>= next) := by
  intro ongoing failure after fails
  rw [EStateM.run_bind] at fails
  cases done : action.run ongoing with
  | ok a between =>
      rw [done] at fails
      exact second a between failure after fails
  | error failure' between =>
      rw [done] at fails
      cases fails
      exact first ongoing failure after done

end Action

open TinyImp.Action

namespace Machine

variable {machine : Machine} {targets : Targets} {text : String}

theorem read_blames (operand : Operand) :
    Blames RuntimeFault.IsUnlabelled (look fun machine : Machine => machine.read operand) := by
  refine .look fun machine fault failed => ?_
  cases operand with
  | const value => cases failed
  | temporary number =>
      simp only [read] at failed
      split at failed
      · cases failed
      · cases failed
        exact RuntimeFault.unboundVariable_unlabelled _

theorem fetch_blames (name : String) :
    Blames RuntimeFault.IsUnlabelled (look fun machine : Machine => machine.fetch name) := by
  refine .look fun machine fault failed => ?_
  simp only [fetch] at failed
  split at failed
  · cases failed
  · cases failed
    exact RuntimeFault.unboundVariable_unlabelled _

theorem write_blames (value : Value) (operand : Operand) :
    Blames RuntimeFault.IsUnlabelled (write value operand) := by
  intro ongoing fault after failed
  cases operand with
  | temporary number => cases failed
  | const constant =>
      cases failed
      exact RuntimeFault.unboundVariable_unlabelled _

theorem assign_blames (name : String) (value : Value) :
    Blames RuntimeFault.IsUnlabelled (assign name value) := by
  refine .bind (.look fun machine fault failed => ?_) fun store =>
    ((Succeeds.alter _).bind fun _ => .emit _).blames
  simp only [Store.assign] at failed
  split at failed
  · cases failed
  · cases failed
    exact RuntimeFault.unboundVariable_unlabelled _

/-- An instruction that does not jump cannot miss a label. -/
theorem perform_blames {instruction : Instruction} (straight : instruction.jumpTarget? = none) :
    Blames RuntimeFault.IsUnlabelled (perform targets instruction) := by
  cases instruction with
  | declare name | mark label => exact (Succeeds.pure none).blames
  | load register name =>
      refine (fetch_blames name).bind fun value => (write_blames value register).bind fun _ => ?_
      exact (Succeeds.pure none).blames
  | store name source =>
      refine (read_blames source).bind fun value => (assign_blames name value).bind fun _ => ?_
      exact (Succeeds.pure none).blames
  | compute op register left right =>
      refine (read_blames left).bind fun leftValue => (read_blames right).bind fun rightValue => ?_
      refine (Blames.lift fun fault failed => (op.apply_fault failed).unlabelled).bind fun value => ?_
      exact (write_blames value register).bind fun _ => (Succeeds.pure none).blames
  | print source =>
      refine (read_blames source).bind fun value => ?_
      exact ((Succeeds.emit _).bind fun _ => .pure none).blames
  | jump label | jumpIfZero source label => cases straight

/-- A jump that finds its label cannot miss one either. -/
theorem perform_jump_blames {instruction : Instruction} {label : Label} {index : Nat}
    (jumps : instruction.jumpTarget? = some label) (found : target targets label = .ok index) :
    Blames RuntimeFault.IsUnlabelled (perform targets instruction) := by
  have finds : Blames RuntimeFault.IsUnlabelled
      (do return some (← liftExcept (target targets label)) : Action RuntimeFault Machine _) := by
    rw [found]
    exact (Succeeds.pure (some index)).blames
  cases instruction with
  | jump other =>
      cases jumps
      exact finds
  | jumpIfZero source other =>
      cases jumps
      refine (read_blames source).bind fun value => ?_
      split
      · exact (Succeeds.pure none).blames
      · exact finds
  | _ => cases jumps

/-- The run of code on a machine after a number of steps. -/
def run (machine : Machine) (code : Code) (steps : Nat) : Run Engine :=
  (Engine.launch machine code).after Engine.step steps

variable {code : Code}

theorem run_of_undefined {error : RuntimeError} (found : code.undefinedJump? = some error)
    (steps : Nat) :
    machine.run code steps =
      { state := .code code.routine { machine }, status := .failed error } := by
  rw [run, Engine.launch, prepare_of_undefined found]
  exact Run.after_of_ended (by simp) steps

theorem run_of_defined (linked : code.undefinedJump? = none) (steps : Nat) :
    machine.run code steps =
      (Engine.code code.routine (.start machine code)).run steps := by
  rw [run, Engine.launch, prepare_of_defined linked]
  rfl

theorem run_state (machine : Machine) (code : Code) (steps : Nat) :
    ∃ execution, (machine.run code steps).state = .code code.routine execution := by
  cases found : code.undefinedJump? with
  | some error => exact ⟨{ machine }, by rw [run_of_undefined found]⟩
  | none =>
      rw [run_of_defined found]
      exact Engine.run_code code.routine _ steps

/-- A run that fails after linking does so in the instruction whose number it reports, and is what it
    was before that instruction, but for its status. -/
theorem run_of_failed (linked : code.undefinedJump? = none) {steps : Nat} {error : RuntimeError}
    (failed : (machine.run code steps).status = .failed error) :
    ∃ before execution instruction, before < steps ∧
      machine.run code before = { machine.run code steps with status := .running } ∧
      (machine.run code before).state = .code code.routine execution ∧
      code[execution.index]? = some instruction ∧ error.line = execution.index + 1 ∧
      (perform code.targets instruction).run { state := execution.machine } =
        .error error.fault { state := execution.machine } := by
  rw [run_of_defined linked] at failed
  obtain ⟨before, earlier, running, fails, same⟩ := Engine.run_of_failed failed
  obtain ⟨execution, isCode⟩ := machine.run_state code before
  rw [← run_of_defined linked] at running fails same
  rw [← run_of_defined linked] at same
  rw [isCode] at fails
  obtain ⟨left, fails, -⟩ := Step.map_eq_fail fails
  obtain ⟨instruction, here, performed, isLine⟩ := Execution.perform_of_fail fails
  have unchanged : machine.run code before = { machine.run code steps with status := .running } := by
    rw [same, ← running]
  simp only [Code.routine, List.getElem?_toArray] at here performed
  exact ⟨before, execution, instruction, earlier, unchanged, isCode, here, isLine, performed⟩

/-- A label that is undefined was so before the run: no jump of a run misses its label. -/
theorem run_undefinedLabel {steps line : Nat}
    (failed : (machine.run code steps).status = .failed { fault := .undefinedLabel text, line }) :
    code.undefinedJump? = some { fault := .undefinedLabel text, line } := by
  cases found : code.undefinedJump? with
  | some error =>
      rw [run_of_undefined found] at failed
      cases failed
      rfl
  | none =>
      obtain ⟨_, execution, instruction, -, -, -, here, -, performed⟩ := run_of_failed found failed
      have unlabelled : Blames RuntimeFault.IsUnlabelled (perform code.targets instruction) := by
        cases jumps : instruction.jumpTarget? with
        | none => exact perform_blames jumps
        | some label =>
            have defined := Code.undefinedJump?_eq_none_iff.mp found
            obtain ⟨place, reached, -⟩ :=
              Code.target_of_jump defined (List.mem_of_getElem? here) jumps
            exact perform_jump_blames jumps reached
      exact absurd rfl (unlabelled _ _ _ performed text)

end Machine

/-- A run of code on a machine fails for an undefined label exactly if some jump leads to a label that
    the code does not define. It then names the first such jump, has shown no event, and has left the
    machine as it was, without a declaration. Otherwise every jump that the run comes to finds its
    label, and if an instruction fails, the run is what it was before that instruction but for its
    status: the failing instruction has changed no variable and no temporary and shown no event. -/
theorem machine_errors_are_atomic (machine : Machine) (code : Code) :
    (∀ steps : Nat,
      (∃ text line, (machine.run code steps).status =
        .failed { fault := .undefinedLabel text, line }) ↔ code.JumpsAstray) ∧
    (∀ (steps : Nat) (text : String) (line : Nat),
      (machine.run code steps).status = .failed { fault := .undefinedLabel text, line } →
      ∃ index label, code.FirstAstray index label ∧ text = label.render ∧ line = index + 1 ∧
        (machine.run code steps).events = #[] ∧
        (machine.run code steps).state.machine? = some machine) ∧
    (¬ code.JumpsAstray →
      ∀ steps : Nat, ∃ execution, (machine.run code steps).state = .code code.routine execution ∧
        (∀ instruction label, code[execution.index]? = some instruction →
          instruction.jumpTarget? = some label →
          ∃ place, Machine.target code.targets label = .ok (place + 1) ∧
            code[place]? = some (.mark label)) ∧
        ∀ error, (machine.run code steps).status = .failed error →
          ∃ before instruction, before < steps ∧
            machine.run code before = { machine.run code steps with status := .running } ∧
            code[execution.index]? = some instruction ∧ error.line = execution.index + 1 ∧
            (Machine.perform code.targets instruction).run { state := execution.machine } =
              .error error.fault { state := execution.machine }) := by
  refine ⟨?undefined, ?first, ?defined⟩
  case undefined =>
    intro steps
    cases found : code.undefinedJump? with
    | none =>
        have defined := Code.undefinedJump?_eq_none_iff.mp found
        constructor
        · intro ⟨text, line, failed⟩
          rw [Machine.run_undefinedLabel failed] at found
          cases found
        · intro astray
          exact absurd astray defined
    | some error =>
        obtain ⟨index, label, first, isError⟩ := Code.undefinedJump?_eq_some found
        obtain ⟨instruction, here, jumps⟩ := first.jumps
        constructor
        · intro _
          exact ⟨instruction, List.mem_of_getElem? here, label, jumps, first.undefined⟩
        · intro _
          exact ⟨label.render, index + 1, by rw [Machine.run_of_undefined found, isError]⟩
  case first =>
    intro steps text line failed
    have found := Machine.run_undefinedLabel failed
    obtain ⟨index, label, first, isError⟩ := Code.undefinedJump?_eq_some found
    cases isError
    rw [Machine.run_of_undefined found]
    exact ⟨index, label, first, rfl, rfl, rfl, rfl⟩
  case defined =>
    intro defined steps
    obtain ⟨execution, isCode⟩ := machine.run_state code steps
    refine ⟨execution, isCode, ?_, ?_⟩
    · intro instruction label here jumps
      exact Code.target_of_jump defined (List.mem_of_getElem? here) jumps
    · intro error failed
      have linked := Code.undefinedJump?_eq_none_iff.mpr defined
      obtain ⟨before, execution', instruction, earlier, same, isCode', here, isLine, performed⟩ :=
        Machine.run_of_failed linked failed
      -- The states before and after the failure are the same, so they are in the same execution.
      rw [same, isCode] at isCode'
      cases isCode'
      exact ⟨before, instruction, earlier, same, here, isLine, performed⟩

/-- Code with two jumps astray, which fails before its declaration, and code that writes to a constant
    after it has stored to a variable. -/
theorem undefined_label_and_constant_target_are_atomic :
    let astray : Code := [.declare "x", .jump 2, .mark 1, .jumpIfZero (.const 0) 3]
    let code : Code := [.declare "x", .jump 1, .mark 1, .store "x" (.const 3), .load (.const 5) "x"]
    (Machine.run {} astray 1).status = .failed { fault := .undefinedLabel "L2", line := 2 } ∧
    (Machine.run {} astray 1).state.machine? = some {} ∧
    (Machine.run {} code 6).status = .failed { fault := .unboundVariable "5", line := 5 } ∧
    ∃ before, before < 6 ∧
      Machine.run {} code before = { Machine.run {} code 6 with status := .running } := by
  intro astray code
  have undefined : (Machine.run {} astray 1).status =
      .failed { fault := .undefinedLabel "L2", line := 2 } := rfl
  have constant : (Machine.run {} code 6).status =
      .failed { fault := .unboundVariable "5", line := 5 } := rfl
  have defined : ¬ code.JumpsAstray := Code.undefinedJump?_eq_none_iff.mp rfl
  obtain ⟨-, first, -⟩ := machine_errors_are_atomic {} astray
  obtain ⟨_, _, -, -, -, -, untouched⟩ := first 1 "L2" 2 undefined
  obtain ⟨-, -, atomic⟩ := machine_errors_are_atomic {} code
  obtain ⟨_, -, -, fails⟩ := atomic defined 6
  obtain ⟨before, _, earlier, same, -⟩ := fails _ constant
  exact ⟨undefined, untouched, constant, before, earlier, same⟩

end TinyImp
