import TinyImp.Proofs.Backends

/-! # Checked programs do not go wrong

In a run of a checked program every name that is still to be used has a value. So the walk can fail
only where arithmetic does, and the run of the code fails only where the walk does.
-/

namespace TinyImp

/-- The faults of operations on values. -/
def RuntimeFault.IsArithmetic (fault : RuntimeFault) : Prop :=
  fault = .divisionByZero ∨ fault = .overflow

theorem Value.exact_fault {n : Int} {fault : RuntimeFault} (failed : Value.exact n = .error fault) :
    fault.IsArithmetic := by
  unfold Value.exact at failed
  split at failed
  · contradiction
  · cases failed
    exact .inr rfl

theorem UnaryOp.apply_fault {op : UnaryOp} {value : Value} {fault : RuntimeFault}
    (failed : op.apply value = .error fault) : fault.IsArithmetic := by
  cases op with
  | negate => exact Value.exact_fault failed
  | not => contradiction

theorem BinaryOp.apply_fault {op : BinaryOp} {left right : Value} {fault : RuntimeFault}
    (failed : op.apply left right = .error fault) : fault.IsArithmetic := by
  cases op with
  | mul | add | sub => exact Value.exact_fault failed
  | div =>
      simp only [BinaryOp.apply, Value.div] at failed
      split at failed
      · cases failed
        exact .inl rfl
      · exact Value.exact_fault failed
  | _ => contradiction

theorem locate_eq_error_iff {κ α : Type} {line : Nat} {result : Except κ α} {error : Located κ} :
    locate line result = .error error ↔ result = .error error.fault ∧ error.line = line := by
  cases result with
  | ok a => simp [locate, Except.mapError]
  | error fault =>
      cases error
      simp [locate, Except.mapError, eq_comm]

/-- Every one of the names has a value. -/
def Store.Binds (store : Store) (names : List String) : Prop :=
  ∀ name ∈ names, (store.get? name).isSome

namespace Store.Binds

variable {store after : Store} {names more : List String}

theorem left (binds : store.Binds (names ++ more)) : store.Binds names :=
  fun name member => binds name (List.mem_append_left more member)

theorem right (binds : store.Binds (names ++ more)) : store.Binds more :=
  fun name member => binds name (List.mem_append_right names member)

theorem append (first : store.Binds names) (second : store.Binds more) :
    store.Binds (names ++ more) := by
  intro name member
  rcases List.mem_append.mp member with member | member
  · exact first name member
  · exact second name member

/-- Assignment keeps the names that have values. -/
theorem assign {target : String} {value : Value} (binds : store.Binds names)
    (assigned : store.assign? target value = some after) : after.Binds names := by
  intro name member
  rw [Store.get?_of_assign? assigned]
  split
  · rfl
  · exact binds name member

end Store.Binds

theorem Expr.eval_fault {expr : Expr} {store : Store} {error : RuntimeError}
    (binds : store.Binds expr.uses) (failed : expr.eval store = .error error) :
    error.fault.IsArithmetic := by
  induction expr with
  | const value line => contradiction
  | var name line =>
      obtain ⟨value, found⟩ := Option.isSome_iff_exists.mp (binds name (List.mem_singleton_self name))
      simp [Expr.eval, found] at failed
  | unary op operand line ih =>
      simp only [Expr.eval] at failed
      cases evaluated : operand.eval store with
      | error error' =>
          rw [evaluated] at failed
          cases failed
          exact ih binds evaluated
      | ok value =>
          rw [evaluated] at failed
          exact UnaryOp.apply_fault (locate_eq_error_iff.mp failed).1
  | binary op left right line ihl ihr =>
      simp only [Expr.eval] at failed
      cases evaluated : left.eval store with
      | error error' =>
          rw [evaluated] at failed
          cases failed
          exact ihl binds.left evaluated
      | ok leftValue =>
          cases evaluated' : right.eval store with
          | error error' =>
              rw [evaluated, evaluated'] at failed
              cases failed
              exact ihr binds.right evaluated'
          | ok rightValue =>
              rw [evaluated, evaluated'] at failed
              exact BinaryOp.apply_fault (locate_eq_error_iff.mp failed).1

theorem Block.uses_append (first second : List Statement) :
    Block.uses (first ++ second) = Block.uses first ++ Block.uses second := by
  induction first with
  | nil => rfl
  | cons statement rest ih => simp [Block.uses, ih]

/-- Every name that is still to be used has a value. -/
def Walk.Bound (walk : Walk) : Prop :=
  walk.store.Binds (Block.uses walk.pending)

/-- The step fails in arithmetic only, and leads only to a good state. -/
def Step.Safe {σ : Type} (good : σ → Prop) : Step σ → Prop
  | .finish => True
  | .fail error _ after => error.fault.IsArithmetic ∧ good after
  | .next _ after => good after

theorem Step.Safe.given {σ : Type} {good : σ → Prop} {state : σ} {store : Store} {expr : Expr}
    {proceed : Value → Step σ} (start : good state) (binds : store.Binds expr.uses)
    (goes : ∀ value, (proceed value).Safe good) :
    (Step.given state (expr.eval store) proceed).Safe good := by
  cases evaluated : expr.eval store with
  | error error => exact ⟨Expr.eval_fault binds evaluated, start⟩
  | ok value => exact goes value

theorem Step.Safe.leads {σ : Type} {good : σ → Prop} {step : Step σ} (safe : step.Safe good) :
    step.Leads good := by
  cases step with
  | finish => trivial
  | fail error event after => exact safe.2
  | next event after => exact safe

/-- One step of a walk keeps the names bound that are still to be used. -/
theorem Walk.Bound.step {walk : Walk} (bound : walk.Bound) : walk.step.Safe Walk.Bound := by
  obtain ⟨pending, store⟩ := walk
  cases pending with
  | nil => trivial
  | cons statement rest =>
      have first : store.Binds statement.uses := Store.Binds.left bound
      have others : store.Binds (Block.uses rest) := Store.Binds.right bound
      cases statement with
      | declare names line => exact others
      | assign target value line =>
          rw [Walk.step_assign]
          refine .given bound (fun name member => first name (List.mem_cons_of_mem _ member)) ?_
          intro result
          cases assigned : store.assign? target result with
          | some after => exact others.assign assigned
          | none =>
              have missing := Store.assign?_eq_none_iff.mp assigned
              have found := first target List.mem_cons_self
              simp [missing] at found
      | print value line =>
          rw [Walk.step_print]
          exact .given bound first fun _ => others
      | loop condition body line =>
          rw [Walk.step_loop]
          refine .given bound first.left ?_
          intro result
          cases holds : result.isTrue with
          | true =>
              show store.Binds (Block.uses (body ++ .loop condition body line :: rest))
              rw [Block.uses_append]
              exact first.right.append bound
          | false => exact others
      | branch condition whenTrue whenFalse line =>
          rw [Walk.step_branch]
          refine .given bound first.left.left ?_
          intro result
          cases holds : result.isTrue with
          | true =>
              show store.Binds (Block.uses (whenTrue ++ rest))
              rw [Block.uses_append]
              exact first.left.right.append others
          | false =>
              show store.Binds (Block.uses (whenFalse ++ rest))
              rw [Block.uses_append]
              exact first.right.append others

/-- Every failure of the run, after any number of steps, is a failure of arithmetic. -/
def Engine.FailsInArithmeticOnly (engine : Engine) : Prop :=
  ∀ steps error, (engine.run steps).status = .failed error → error.fault.IsArithmetic

theorem Walk.Bound.fails {walk : Walk} (bound : walk.Bound) :
    (Engine.tree walk).FailsInArithmeticOnly := by
  intro n error failed
  obtain ⟨before, -, -, fails, -⟩ := Engine.run_of_failed failed
  obtain ⟨walk', isTree, bound⟩ := Engine.run_tree (fun _ bound => bound.step.leads) bound before
  rw [isTree] at fails
  obtain ⟨left, fails, -⟩ := Step.map_eq_fail fails
  have safe := bound.step
  rw [fails] at safe
  exact safe.1

/-- An engine fails as an equivalent one does. -/
theorem Engine.Equivalent.fails {left right : Engine} (equivalent : left.Equivalent right)
    (fails : left.FailsInArithmeticOnly) : right.FailsInArithmeticOnly := by
  intro n error failed
  have ends : right.Ends _ (.failed error.fault) _ := ⟨n, rfl, by rw [failed]; rfl, rfl⟩
  obtain ⟨m, -, ended, -⟩ := (equivalent.ends _ _ _).mpr ends
  cases status : (left.run m).status with
  | running | finished => simp [status, Status.ending?] at ended
  | failed error' =>
      have same : error'.fault = error.fault := by simpa [status, Status.ending?] using ended
      exact same ▸ fails m error' status

/-- Neither back end ever meets a name without a value or a label without a place in a program that
    passes the check: linking succeeds, and the only faults of a run, however long, are a division by
    zero and an overflow. -/
theorem checked_programs_are_safe {program : Program} {symbols : SymbolTable}
    (checked : program.check = .ok symbols) :
    (Engine.ofStatements (Store.declareAll {} symbols.toList) program).FailsInArithmeticOnly ∧
    ∃ engine, Engine.ofCode {} program.lower.code = .ok engine ∧ engine.FailsInArithmeticOnly := by
  obtain ⟨listed, holds⟩ := Program.check_covers checked
  have bound : Walk.Bound { pending := program, store := Store.declareAll {} symbols.toList } := by
    intro name member
    simp [Store.get?_declareAll, holds name member]
  obtain ⟨engine, linked, equivalent⟩ := program.lower_equivalent {}
  rw [← listed] at equivalent
  exact ⟨bound.fails, engine, linked, equivalent.fails bound.fails⟩

/-- A countdown that divides by its counter after the last round. -/
theorem countdown_is_safe :
    let program : Program :=
      [.declare ["x"] 1, .assign "x" (.const 3 1) 1,
        .loop (.var "x" 2)
          [.print (.binary .div (.const 6 2) (.var "x" 2) 2) 2,
            .assign "x" (.binary .sub (.var "x" 2) (.const 1 2) 2) 2] 2,
        .print (.binary .div (.const 6 3) (.var "x" 3) 3) 3]
    ∃ symbols engine, program.check = .ok symbols ∧
      (Engine.ofStatements (Store.declareAll {} symbols.toList) program).FailsInArithmeticOnly ∧
      Engine.ofCode {} program.lower.code = .ok engine ∧ engine.FailsInArithmeticOnly := by
  intro program
  have checked : ∃ symbols, program.check = .ok symbols := by
    simp [program, Program.check, Block.check, Statement.check, Expr.check, SymbolTable.require,
      SymbolTable.declareAll, SymbolTable.declare, SymbolTable.contains, bind, Except.bind, pure,
      Except.pure]
  obtain ⟨symbols, checked⟩ := checked
  obtain ⟨tree, engine, linked, code⟩ := checked_programs_are_safe checked
  exact ⟨symbols, engine, checked, tree, linked, code⟩

end TinyImp
