import TinyImp.Engine

/-! # A step that fails has changed nothing

An action may fail halfway, and what it has done by then remains. It matters, then, in which order an
instruction or a statement does things: each of them looks at what it needs before it changes
anything, and where a change can fail, it is the first one. So a failing step leaves the state as it
was and has shown no event.
-/

namespace TinyImp

namespace Action

variable {ε σ τ α β : Type}

@[simp]
theorem run_lift (result : Except ε α) (ongoing : Ongoing σ) :
    (liftExcept result : Action ε σ α).run ongoing =
      match result with
      | .ok a => .ok a ongoing
      | .error failure => .error failure ongoing := by
  cases result <;> rfl

@[simp]
theorem run_look (view : σ → Except ε α) (ongoing : Ongoing σ) :
    (look view).run ongoing =
      match view ongoing.state with
      | .ok a => .ok a ongoing
      | .error failure => .error failure ongoing := by
  rw [look, EStateM.run_bind, EStateM.run_get]
  exact run_lift (view ongoing.state) ongoing

@[simp]
theorem run_alter (change : σ → σ) (ongoing : Ongoing σ) :
    (alter change : Action ε σ Unit).run ongoing =
      .ok () { ongoing with state := change ongoing.state } := rfl

@[simp]
theorem run_emit (event : Event) (ongoing : Ongoing σ) :
    (emit event : Action ε σ Unit).run ongoing = .ok () { ongoing with event := some event } := rfl

/-- The action changes nothing, whether it fails or not. -/
def Looks (action : Action ε σ α) : Prop :=
  ∀ ongoing, (∃ a, action.run ongoing = .ok a ongoing) ∨
    ∃ failure, action.run ongoing = .error failure ongoing

/-- The action does not fail. -/
def Succeeds (action : Action ε σ α) : Prop :=
  ∀ ongoing, ∃ a after, action.run ongoing = .ok a after

/-- If the action fails, it has changed nothing. -/
def Atomic (action : Action ε σ α) : Prop :=
  ∀ ongoing failure after, action.run ongoing = .error failure after → after = ongoing

section

variable {action : Action ε σ α} {next : α → Action ε σ β}

theorem Looks.lift (result : Except ε α) : Looks (liftExcept result : Action ε σ α) := by
  intro ongoing
  rw [run_lift]
  cases result with
  | ok a => exact .inl ⟨a, rfl⟩
  | error failure => exact .inr ⟨failure, rfl⟩

theorem Looks.look (view : σ → Except ε α) : Looks (look view) := by
  intro ongoing
  exact Looks.lift (view ongoing.state) ongoing

theorem Succeeds.pure (a : α) : Succeeds (pure a : Action ε σ α) :=
  fun ongoing => ⟨a, ongoing, rfl⟩

theorem Succeeds.alter (change : σ → σ) : Succeeds (alter change : Action ε σ Unit) :=
  fun _ => ⟨(), _, rfl⟩

theorem Succeeds.emit (event : Event) : Succeeds (emit event : Action ε σ Unit) :=
  fun _ => ⟨(), _, rfl⟩

theorem Succeeds.bind (first : Succeeds action) (second : ∀ a, Succeeds (next a)) :
    Succeeds (action >>= next) := by
  intro ongoing
  obtain ⟨a, between, done⟩ := first ongoing
  obtain ⟨b, after, done'⟩ := second a between
  exact ⟨b, after, by simp only [EStateM.run_bind, done, done']⟩

theorem Succeeds.atomic (succeeds : Succeeds action) : Atomic action := by
  intro ongoing failure after fails
  obtain ⟨a, after', done⟩ := succeeds ongoing
  rw [done] at fails
  cases fails

/-- What only looks may stand before anything. -/
theorem Looks.bind (looks : Looks action) (atomic : ∀ a, Atomic (next a)) :
    Atomic (action >>= next) := by
  intro ongoing failure after fails
  rw [EStateM.run_bind] at fails
  rcases looks ongoing with ⟨a, seen⟩ | ⟨failure', seen⟩
  · rw [seen] at fails
    exact atomic a ongoing failure after fails
  · rw [seen] at fails
    cases fails
    rfl

/-- What changes something may stand only before what does not fail. -/
theorem Atomic.bind (atomic : Atomic action) (succeeds : ∀ a, Succeeds (next a)) :
    Atomic (action >>= next) := by
  intro ongoing failure after fails
  rw [EStateM.run_bind] at fails
  cases done : action.run ongoing with
  | ok a between =>
      obtain ⟨b, after', done'⟩ := succeeds a between
      simp only [done, done', reduceCtorEq] at fails
  | error failure' between =>
      rw [done] at fails
      cases fails
      exact atomic ongoing failure after done

end

theorem step_look_bind (view : σ → Except ε α) (next : α → Action ε σ β) (state : σ)
    (report : ε → RuntimeError) (leave : σ → τ) (resume : β → σ → τ) :
    (look view >>= next).step state report leave resume =
      match view state with
      | .ok a => (next a).step state report leave resume
      | .error failure => .fail (report failure) none (leave state) := by
  unfold step
  rw [EStateM.run_bind, run_look]
  cases view state <;> rfl

/-- A step that fails leaves what its action leaves, and so what was there. -/
theorem Atomic.of_step_fail {action : Action ε σ α} (atomic : Atomic action) {state : σ}
    {report : ε → RuntimeError} {leave : σ → τ} {resume : α → σ → τ} {error : RuntimeError}
    {event : Option Event} {left : τ}
    (fails : action.step state report leave resume = .fail error event left) :
    event = none ∧ left = leave state ∧
      ∃ failure, action.run { state } = .error failure { state } ∧ error = report failure := by
  unfold step at fails
  cases done : action.run { state } with
  | ok a after =>
      rw [done] at fails
      cases fails
  | error failure after =>
      obtain rfl := atomic { state } failure after done
      rw [done] at fails
      cases fails
      exact ⟨rfl, rfl, failure, rfl, rfl⟩

end Action

open TinyImp.Action

/-- No statement changes a variable or shows an event before it fails. -/
theorem Statement.perform_atomic (statement : Statement) : statement.perform.Atomic := by
  cases statement with
  | declare names line => exact (Succeeds.pure []).atomic
  | assign target value line =>
      refine (Looks.look _).bind fun result => (Looks.look _).bind fun after => ?_
      exact ((Succeeds.alter _).bind fun _ => (Succeeds.emit _).bind fun _ => .pure []).atomic
  | print value line =>
      refine (Looks.look _).bind fun result => ?_
      exact ((Succeeds.emit _).bind fun _ => .pure []).atomic
  | loop condition body line | branch condition whenTrue whenFalse line =>
      exact (Looks.look _).bind fun result => (Succeeds.pure _).atomic

namespace Machine

theorem write_atomic (value : Value) (operand : Operand) : (write value operand).Atomic := by
  cases operand with
  | temporary number =>
      apply Succeeds.atomic
      exact .alter fun machine : Machine => machine.set number value
  | const constant =>
      intro ongoing failure after fails
      cases fails
      rfl

theorem assign_atomic (name : String) (value : Value) : (assign name value).Atomic :=
  (Looks.look _).bind fun _ => ((Succeeds.alter _).bind fun _ => .emit _).atomic

/-- No instruction changes a variable or a temporary or shows an event before it fails. -/
theorem perform_atomic (targets : Targets) (instruction : Instruction) :
    (perform targets instruction).Atomic := by
  cases instruction with
  | declare name | mark label => exact (Succeeds.pure none).atomic
  | load register name =>
      refine (Looks.look _).bind fun value => ?_
      exact (write_atomic value register).bind fun _ => .pure none
  | store name source =>
      refine (Looks.look _).bind fun value => ?_
      exact (assign_atomic name value).bind fun _ => .pure none
  | compute op register left right =>
      refine (Looks.look _).bind fun leftValue => (Looks.look _).bind fun rightValue => ?_
      refine (Looks.lift _).bind fun value => ?_
      exact (write_atomic value register).bind fun _ => .pure none
  | print source =>
      refine (Looks.look _).bind fun value => ?_
      exact ((Succeeds.emit _).bind fun _ => .pure none).atomic
  | jump label => exact (Looks.lift _).bind fun index => (Succeeds.pure _).atomic
  | jumpIfZero source label =>
      refine (Looks.look _).bind fun value => ?_
      split
      · exact (Succeeds.pure none).atomic
      · exact (Looks.lift _).bind fun index => (Succeeds.pure _).atomic

end Machine

/-- Steps that leave the state as it was and show no event if they fail. -/
def Step.Atomic {σ : Type} (step : σ → Step σ) : Prop :=
  ∀ state error event left, step state = .fail error event left → event = none ∧ left = state

theorem Walk.step_atomic : Step.Atomic Walk.step := by
  intro walk error event left fails
  unfold Walk.step at fails
  split at fails
  · cases fails
  next statement rest _ =>
    obtain ⟨unseen, isLeft, -⟩ := statement.perform_atomic.of_step_fail fails
    exact ⟨unseen, isLeft⟩

/-- Go on with a result, or fail and leave everything as it is. -/
def Step.given {α σ : Type} (state : σ) (result : Except RuntimeError α) (proceed : α → Step σ) :
    Step σ :=
  match result with
  | .ok a => proceed a
  | .error error => .fail error none state

namespace Walk

variable (store : Store) (rest : List Statement)

theorem step_cons (statement : Statement) :
    step { pending := statement :: rest, store } =
      statement.perform.step store id (fun store => { pending := statement :: rest, store })
        fun next store => { pending := next ++ rest, store } := rfl

theorem step_assign (target : String) (value : Expr) (line : Nat) :
    step { pending := .assign target value line :: rest, store } =
      .given { pending := .assign target value line :: rest, store } (value.eval store) fun result =>
        match store.assign? target result with
        | some after => .next (some (.assigned target result)) { pending := rest, store := after }
        | none =>
            .fail { fault := .unboundVariable target, line } none
              { pending := .assign target value line :: rest, store } := by
  rw [step_cons, Statement.perform, step_look_bind]
  cases value.eval store with
  | error error => rfl
  | ok result =>
      simp only [step_look_bind, Store.assign, Step.given]
      cases store.assign? target result <;> rfl

theorem step_print (value : Expr) (line : Nat) :
    step { pending := .print value line :: rest, store } =
      .given { pending := .print value line :: rest, store } (value.eval store) fun result =>
        .next (some (.printed result)) { pending := rest, store } := by
  rw [step_cons, Statement.perform, step_look_bind]
  cases value.eval store <;> rfl

theorem step_loop (condition : Expr) (body : List Statement) (line : Nat) :
    step { pending := .loop condition body line :: rest, store } =
      .given { pending := .loop condition body line :: rest, store } (condition.eval store)
        fun result =>
          .next none { pending :=
            if result.isTrue then body ++ .loop condition body line :: rest else rest, store } := by
  rw [step_cons, Statement.perform, step_look_bind]
  cases condition.eval store with
  | error error => rfl
  | ok result =>
      cases holds : result.isTrue <;> simp [Action.step, Step.given, holds]

theorem step_branch (condition : Expr) (whenTrue whenFalse : List Statement) (line : Nat) :
    step { pending := .branch condition whenTrue whenFalse line :: rest, store } =
      .given { pending := .branch condition whenTrue whenFalse line :: rest, store }
        (condition.eval store) fun result =>
          .next none { pending := (if result.isTrue then whenTrue else whenFalse) ++ rest, store } := by
  rw [step_cons, Statement.perform, step_look_bind]
  cases condition.eval store <;> rfl

end Walk

theorem Execution.step_atomic (routine : Routine) : Step.Atomic (Execution.step routine) := by
  intro execution error event left fails
  unfold Execution.step at fails
  split at fails
  · cases fails
  next instruction _ =>
    obtain ⟨unseen, isLeft, -⟩ :=
      (Machine.perform_atomic routine.targets instruction).of_step_fail fails
    exact ⟨unseen, isLeft⟩

theorem Step.map_eq_fail {σ τ : Type} {step : Step σ} {f : σ → τ} {error : RuntimeError}
    {event : Option Event} {left : τ} (fails : step.map f = .fail error event left) :
    ∃ state, step = .fail error event state ∧ left = f state := by
  cases step with
  | finish | next event after => cases fails
  | fail other event' state =>
      cases fails
      exact ⟨state, rfl, rfl⟩

theorem Engine.step_atomic : Step.Atomic Engine.step := by
  intro engine error event left fails
  cases engine with
  | tree walk =>
      obtain ⟨after, fails, isLeft⟩ := Step.map_eq_fail fails
      obtain ⟨unseen, same⟩ := Walk.step_atomic walk error event after fails
      exact ⟨unseen, by rw [isLeft, same]⟩
  | code routine execution =>
      obtain ⟨after, fails, isLeft⟩ := Step.map_eq_fail fails
      obtain ⟨unseen, same⟩ :=
        Execution.step_atomic routine execution error event after fails
      exact ⟨unseen, by rw [isLeft, same]⟩

end TinyImp
