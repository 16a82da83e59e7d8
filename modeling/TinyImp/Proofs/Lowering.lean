import TinyImp.Proofs.Labels

/-! # Lowering preserves what a program does

The statements that a walk has still to run are found again in the code: from the place where the
machine stands, the code carries out the first of them and arrives at a place from which it carries
out the others. This is kept by every step of the walk, so the run of the code simulates the walk.
-/

namespace TinyImp

mutual

/-- The line of the node for which each instruction of a statement is made. -/
def Statement.lines : Statement → List Nat
  | .declare names line => names.map fun _ => line
  | .assign _ value line => value.lines ++ [line]
  | .print value line => value.lines ++ [line]
  | .loop condition body line =>
      line :: condition.lines ++ line :: Block.lines body ++ [line, line]
  | .branch condition whenTrue whenFalse line =>
      condition.lines ++ line :: Block.lines whenTrue ++ line :: line :: Block.lines whenFalse ++
        [line]

def Block.lines : List Statement → List Nat
  | [] => []
  | statement :: rest => statement.lines ++ Block.lines rest

end

mutual

theorem Statement.lines_length (statement : Statement) (counters : Counters) :
    statement.lines.length = (statement.lower counters).1.length := by
  cases statement with
  | declare names line => simp [Statement.lines, Statement.lower]
  | assign target value line | print value line =>
      simp [Statement.lines, Statement.lower, value.lines_length counters.temporaries]
  | loop condition body line =>
      simp [Statement.lines, Statement.lower, condition.lines_length counters.temporaries,
        Block.lines_length body
          ⟨(condition.lower counters.temporaries).temporaries, counters.labels + 2⟩]
  | branch condition whenTrue whenFalse line =>
      simp [Statement.lines, Statement.lower, condition.lines_length counters.temporaries,
        Block.lines_length whenTrue
          ⟨(condition.lower counters.temporaries).temporaries, counters.labels + 2⟩,
        Block.lines_length whenFalse (Block.lower whenTrue
          ⟨(condition.lower counters.temporaries).temporaries, counters.labels + 2⟩).2]
termination_by sizeOf statement

theorem Block.lines_length (statements : List Statement) (counters : Counters) :
    (Block.lines statements).length = (Block.lower statements counters).1.length := by
  cases statements with
  | nil => rfl
  | cons statement rest =>
      simp [Block.lines, Block.lower, statement.lines_length counters,
        Block.lines_length rest (statement.lower counters).2]
termination_by sizeOf statements

end

/-- From an index on, the code carries out the pending statements. The code of a loop may also be
    met after its first label, which is where its last jump leads. -/
inductive Follows (code : Code) (lines : List Nat) : Nat → List Statement → Prop where
  | finish {index : Nat} : code.length ≤ index → Follows code lines index []
  | statement {index : Nat} {statement : Statement} {rest : List Statement} (counters : Counters) :
      Segment code index (statement.lower counters).1 → Segment lines index statement.lines →
      Follows code lines (index + (statement.lower counters).1.length) rest →
      Follows code lines index (statement :: rest)
  | test {index : Nat} {condition : Expr} {body rest : List Statement} {line : Nat}
      (counters : Counters) :
      Segment code index ((Statement.loop condition body line).lower counters).1 →
      Segment lines index (Statement.loop condition body line).lines →
      Follows code lines
        (index + ((Statement.loop condition body line).lower counters).1.length) rest →
      Follows code lines (index + 1) (.loop condition body line :: rest)
  | mark {index : Nat} {pending : List Statement} {label : Label} :
      code[index]? = some (.mark label) → Follows code lines (index + 1) pending →
      Follows code lines index pending
  | jump {index there : Nat} {pending : List Statement} {label : Label} :
      code[index]? = some (.jump label) → code.targets[label]? = some there →
      Follows code lines there pending → Follows code lines index pending

/-- The place at which the first pending statement has its effect, labels and jumps before it being
    passed. -/
def Ready (code : Code) (lines : List Nat) (index : Nat) : List Statement → Prop
  | [] => code.length ≤ index
  | .loop condition body line :: rest => ∃ counters start, index = start + 1 ∧
      Segment code start ((Statement.loop condition body line).lower counters).1 ∧
      Segment lines start (Statement.loop condition body line).lines ∧
      Follows code lines
        (start + ((Statement.loop condition body line).lower counters).1.length) rest
  | statement :: rest => ∃ counters, Segment code index (statement.lower counters).1 ∧
      Segment lines index statement.lines ∧
      Follows code lines (index + (statement.lower counters).1.length) rest

namespace Follows

variable {code : Code} {lines : List Nat} {index : Nat} {pending : List Statement}

theorem shift {there : Nat} (follows : Follows code lines index pending) (same : index = there) :
    Follows code lines there pending :=
  same ▸ follows

theorem step_mark {label : Label} {machine : Machine} (here : code[index]? = some (.mark label)) :
    Execution.step code.routine { index, machine } = .next none { index := index + 1, machine } :=
  Execution.step_of_perform here rfl

theorem step_jump {label : Label} {there : Nat} {machine : Machine}
    (here : code[index]? = some (.jump label)) (leads : code.targets[label]? = some there) :
    Execution.step code.routine { index, machine } = .next none { index := there, machine } := by
  have performed : (Machine.perform code.targets (.jump label)).run { state := machine } =
      .ok (some there) { state := machine } := by
    simp [-bind_pure_comp, Machine.perform, Machine.target, leads]
  exact Execution.step_of_perform here performed

theorem settle (follows : Follows code lines index pending) (machine : Machine) :
    ∃ n there, Steps (Execution.step code.routine) n { index, machine } []
      { index := there, machine } ∧ Ready code lines there pending := by
  induction follows with
  | finish past => exact ⟨0, _, .refl _, past⟩
  | @statement index statement rest counters placed tagged follows _ =>
      cases statement with
      | loop condition body line =>
          have here : code[index]? = some (.mark (counters.labels + 1)) := by
            simp only [Statement.lower, List.cons_append, Segment.cons_iff] at placed
            exact placed.1
          exact ⟨1, index + 1, .one (step_mark here), counters, index, rfl, placed, tagged, follows⟩
      | _ => exact ⟨0, index, .refl _, counters, placed, tagged, follows⟩
  | test counters placed tagged follows _ =>
      exact ⟨0, _, .refl _, counters, _, rfl, placed, tagged, follows⟩
  | mark here _ ih =>
      obtain ⟨n, there, steps, ready⟩ := ih
      exact ⟨n + 1, there, .head (step_mark here) steps, ready⟩
  | jump here leads _ ih =>
      obtain ⟨n, there, steps, ready⟩ := ih
      exact ⟨n + 1, there, .head (step_jump here leads) steps, ready⟩

theorem block {statements : List Statement} {counters : Counters}
    (placed : Segment code index (Block.lower statements counters).1)
    (tagged : Segment lines index (Block.lines statements))
    (follows : Follows code lines (index + (Block.lower statements counters).1.length) pending) :
    Follows code lines index (statements ++ pending) := by
  induction statements generalizing index counters with
  | nil => simpa [Block.lower] using follows
  | cons statement rest ih =>
      simp only [Block.lower, Block.lines, Segment.append_iff] at placed tagged
      rw [statement.lines_length counters] at tagged
      refine .statement counters placed.1 tagged.1 (ih placed.2 tagged.2 ?_)
      simpa [Block.lower, Nat.add_assoc] using follows

end Follows

/-- From an execution on, the machine does what one step of a walk does, in steps of its own. -/
def Answers (code : Code) (lines : List Nat) (pending : List Statement) (execution : Execution) :
    Step Walk → Prop
  | .finish => ∃ n last, Steps (Execution.step code.routine) n execution [] last ∧
      Execution.step code.routine last = .finish ∧ last.machine.store = execution.machine.store
  | .fail error _ _ => ∃ n last number, Steps (Execution.step code.routine) n execution [] last ∧
      Execution.step code.routine last =
        .fail { fault := error.fault, line := number + 1 } none last ∧
      lines[number]? = some error.line ∧ last.machine.store = execution.machine.store
  | .next event walk => ∃ n last,
      Steps (Execution.step code.routine) n execution event.toList last ∧
      Follows code lines last.index walk.pending ∧ last.machine.store = walk.store ∧
      (n = 0 → walk.pending.length < pending.length)

namespace Answers

variable {code : Code} {lines : List Nat} {pending : List Statement} {index : Nat}

/-- Silent steps that keep the variables may come first. -/
theorem of_steps {n : Nat} {first second : Execution} {step : Step Walk}
    (steps : Steps (Execution.step code.routine) n first [] second)
    (kept : second.machine.store = first.machine.store)
    (answers : Answers code lines pending second step) : Answers code lines pending first step := by
  cases step with
  | finish =>
      obtain ⟨m, last, rest, stops, stored⟩ := answers
      exact ⟨n + m, last, steps.trans rest, stops, stored.trans kept⟩
  | fail error event left =>
      obtain ⟨m, last, number, rest, fails, here, stored⟩ := answers
      exact ⟨n + m, last, number, steps.trans rest, fails, here, stored.trans kept⟩
  | next event walk =>
      obtain ⟨m, last, rest, follows, stored, smaller⟩ := answers
      exact ⟨n + m, last, steps.trans rest, follows, stored, fun none => smaller (by omega)⟩

/-- A step that begins with the value of an expression is answered by the code of the expression and
    by what comes after it. -/
theorem given {expr : Expr} {bound : Nat} {machine : Machine} {walk : Walk}
    {proceed : Value → Step Walk}
    (placed : Segment code index (expr.lower bound).code) (tagged : Segment lines index expr.lines)
    (answers : ∀ value after, after.store = machine.store →
      after.read (expr.lower bound).result = .ok value →
      Answers code lines pending
        { index := index + (expr.lower bound).code.length, machine := after } (proceed value)) :
    Answers code lines pending { index, machine } (.given walk (expr.eval machine.store) proceed) := by
  have computed := expr.lower_computes machine placed
  cases evaluated : expr.eval machine.store with
  | error error =>
      rw [evaluated] at computed
      cases computed with
      | fault steps keeps fails here =>
          exact ⟨_, _, _, steps, fails, tagged.getElem? here, keeps.store⟩
  | ok value =>
      rw [evaluated] at computed
      cases computed with
      | @value _ after reached readResult =>
          exact of_steps reached.steps reached.keeps.store
            (answers value after reached.keeps.store readResult)

/-- One step with which the walk goes on. -/
theorem one {event : Option Event} {walk : Walk} {execution : Execution} {there : Nat}
    {after : Machine}
    (step : Execution.step code.routine execution = .next event { index := there, machine := after })
    (follows : Follows code lines there walk.pending) (stored : after.store = walk.store) :
    Answers code lines pending execution (.next event walk) :=
  ⟨1, _, .one step, follows, stored, by simp⟩

end Answers

section

variable {code : Code} {lines : List Nat} {index : Nat} {machine : Machine}
  {rest : List Statement} {line first last : Nat}

theorem declare_answers {names : List String} {counters : Counters}
    (placed : Segment code index ((Statement.declare names line).lower counters).1)
    (follows : Follows code lines
      (index + ((Statement.declare names line).lower counters).1.length) rest) :
    Answers code lines (.declare names line :: rest) { index, machine }
      (Walk.step { pending := .declare names line :: rest, store := machine.store }) := by
  have steps : Steps (Execution.step code.routine) names.length { index, machine } []
      { index := index + names.length, machine } := by
    simp only [Statement.lower] at placed
    clear follows
    induction names generalizing index with
    | nil => exact .refl _
    | cons name names ih =>
        simp only [List.map_cons, Segment.cons_iff] at placed
        have step : Execution.step code.routine { index, machine } =
            .next none { index := index + 1, machine } := Execution.step_of_perform placed.1 rfl
        have whole := (Steps.one step).trans (ih placed.2)
        simpa [Nat.add_comm, Nat.add_left_comm] using whole
  exact ⟨names.length, _, steps, by simpa [Statement.lower] using follows, rfl, by simp⟩

theorem assign_answers {target : String} {value : Expr} {counters : Counters}
    (placed : Segment code index ((Statement.assign target value line).lower counters).1)
    (tagged : Segment lines index (Statement.assign target value line).lines)
    (follows : Follows code lines
      (index + ((Statement.assign target value line).lower counters).1.length) rest) :
    Answers code lines (.assign target value line :: rest) { index, machine }
      (Walk.step { pending := .assign target value line :: rest, store := machine.store }) := by
  simp only [Statement.lower, Statement.lines, Segment.append_iff, Segment.cons_iff,
    List.length_append, List.length_singleton] at placed tagged follows
  rw [value.lines_length counters.temporaries] at tagged
  rw [Walk.step_assign]
  refine .given placed.1 tagged.1 ?_
  intro result after stored readResult
  cases assigned : machine.store.assign? target result with
  | some store =>
      have performed : (Machine.perform code.targets
          (.store target (value.lower counters.temporaries).result)).run { state := after } =
            .ok none { state := { after with store }, event := some (.assigned target result) } := by
        simp [-bind_pure_comp, Machine.perform, Machine.assign, Store.assign, readResult, stored,
          assigned]
      exact .one (Execution.step_of_perform placed.2.1 performed) follows rfl
  | none =>
      have performed : (Machine.perform code.targets
          (.store target (value.lower counters.temporaries).result)).run { state := after } =
            .error (.unboundVariable target) { state := after } := by
        simp [-bind_pure_comp, Machine.perform, Machine.assign, Store.assign, readResult, stored,
          assigned]
      exact ⟨0, _, _, .refl _, Execution.step_of_fault placed.2.1 performed, tagged.2.1, rfl⟩

theorem print_answers {value : Expr} {counters : Counters}
    (placed : Segment code index ((Statement.print value line).lower counters).1)
    (tagged : Segment lines index (Statement.print value line).lines)
    (follows : Follows code lines
      (index + ((Statement.print value line).lower counters).1.length) rest) :
    Answers code lines (.print value line :: rest) { index, machine }
      (Walk.step { pending := .print value line :: rest, store := machine.store }) := by
  simp only [Statement.lower, Statement.lines, Segment.append_iff, Segment.cons_iff,
    List.length_append, List.length_singleton] at placed tagged follows
  rw [Walk.step_print]
  refine .given placed.1 tagged.1 ?_
  intro result after stored readResult
  have performed : (Machine.perform code.targets
      (.print (value.lower counters.temporaries).result)).run { state := after } =
        .ok none { state := after, event := some (.printed result) } := by
    simp [-bind_pure_comp, Machine.perform, readResult]
  exact .one (Execution.step_of_perform placed.2.1 performed) follows stored

theorem step_jumpIfZero_true {source : Operand} {label : Label} {value : Value}
    (here : code[index]? = some (.jumpIfZero source label))
    (readSource : machine.read source = .ok value) (holds : value.isTrue) :
    Execution.step code.routine { index, machine } = .next none { index := index + 1, machine } := by
  have performed : (Machine.perform code.targets (.jumpIfZero source label)).run
      { state := machine } = .ok none { state := machine } := by
    simp [-bind_pure_comp, Machine.perform, readSource, holds]
  exact Execution.step_of_perform here performed

theorem step_jumpIfZero_false {source : Operand} {label : Label} {value : Value} {there : Nat}
    (here : code[index]? = some (.jumpIfZero source label))
    (leads : code.targets[label]? = some there)
    (readSource : machine.read source = .ok value) (fails : value.isTrue = false) :
    Execution.step code.routine { index, machine } = .next none { index := there, machine } := by
  have performed : (Machine.perform code.targets (.jumpIfZero source label)).run
      { state := machine } = .ok (some there) { state := machine } := by
    simp [-bind_pure_comp, Machine.perform, Machine.target, leads, readSource, fails]
  exact Execution.step_of_perform here performed

theorem loop_answers {condition : Expr} {body : List Statement} {counters : Counters}
    (labelled : code.Labelled first last)
    (placed : Segment code index ((Statement.loop condition body line).lower counters).1)
    (tagged : Segment lines index (Statement.loop condition body line).lines)
    (follows : Follows code lines
      (index + ((Statement.loop condition body line).lower counters).1.length) rest) :
    Answers code lines (.loop condition body line :: rest) { index := index + 1, machine }
      (Walk.step { pending := .loop condition body line :: rest, store := machine.store }) := by
  have again : Follows code lines (index + 1) (.loop condition body line :: rest) :=
    .test counters placed tagged follows
  simp only [Statement.lower, Statement.lines, List.append_assoc, List.cons_append,
    Segment.append_iff, Segment.cons_iff, List.length_append, List.length_cons, List.length_nil]
    at placed tagged follows
  obtain ⟨markTop, placedTest, jumpOut, placedBody, jumpBack, markBottom, -⟩ := placed
  obtain ⟨-, taggedTest, -, taggedBody, -⟩ := tagged
  rw [condition.lines_length counters.temporaries] at taggedBody
  rw [Walk.step_loop]
  refine .given placedTest taggedTest ?_
  intro result after stored readResult
  cases holds : result.isTrue with
  | true =>
      show Answers code lines _ _
        (.next none { pending := body ++ .loop condition body line :: rest, store := machine.store })
      refine .one (step_jumpIfZero_true jumpOut readResult holds) ?_ stored
      exact .block placedBody taggedBody (.jump jumpBack (labelled.target markTop) again)
  | false =>
      show Answers code lines _ _ (.next none { pending := rest, store := machine.store })
      refine .one (step_jumpIfZero_false jumpOut (labelled.target markBottom) readResult holds) ?_
        stored
      exact follows.shift (by omega)

theorem branch_answers {condition : Expr} {whenTrue whenFalse : List Statement} {counters : Counters}
    (labelled : code.Labelled first last)
    (placed : Segment code index
      ((Statement.branch condition whenTrue whenFalse line).lower counters).1)
    (tagged : Segment lines index (Statement.branch condition whenTrue whenFalse line).lines)
    (follows : Follows code lines
      (index + ((Statement.branch condition whenTrue whenFalse line).lower counters).1.length) rest) :
    Answers code lines (.branch condition whenTrue whenFalse line :: rest) { index, machine }
      (Walk.step
        { pending := .branch condition whenTrue whenFalse line :: rest, store := machine.store }) := by
  let inTrue : Counters := ⟨(condition.lower counters.temporaries).temporaries, counters.labels + 2⟩
  simp only [Statement.lower, Statement.lines, List.append_assoc, List.cons_append,
    Segment.append_iff, Segment.cons_iff, List.length_append, List.length_cons, List.length_nil]
    at placed tagged follows
  obtain ⟨placedTest, jumpElse, placedTrue, jumpEnd, markElse, placedFalse, markEnd, -⟩ := placed
  obtain ⟨taggedTest, -, taggedTrue, -, -, taggedFalse, -⟩ := tagged
  rw [condition.lines_length counters.temporaries] at taggedTrue taggedFalse
  rw [Block.lines_length whenTrue inTrue] at taggedFalse
  rw [Walk.step_branch]
  refine .given placedTest taggedTest ?_
  intro result after stored readResult
  have toEnd := labelled.target markEnd
  cases holds : result.isTrue with
  | true =>
      show Answers code lines _ _
        (.next none { pending := whenTrue ++ rest, store := machine.store })
      refine .one (step_jumpIfZero_true jumpElse readResult holds) ?_ stored
      exact .block placedTrue taggedTrue (.jump jumpEnd toEnd (follows.shift (by omega)))
  | false =>
      show Answers code lines _ _
        (.next none { pending := whenFalse ++ rest, store := machine.store })
      refine .one (step_jumpIfZero_false jumpElse (labelled.target markElse) readResult holds) ?_
        stored
      exact .block placedFalse taggedFalse (.mark markEnd (follows.shift (by omega)))

end

/-- Wherever the code carries out the pending statements, it answers the next step of the walk. -/
theorem Follows.answers {code : Code} {lines : List Nat} {index first last : Nat}
    {pending : List Statement} (labelled : code.Labelled first last)
    (follows : Follows code lines index pending) (machine : Machine) :
    Answers code lines pending { index, machine }
      (Walk.step { pending, store := machine.store }) := by
  obtain ⟨n, there, steps, ready⟩ := follows.settle machine
  refine .of_steps steps rfl ?_
  cases pending with
  | nil => exact ⟨0, _, .refl _, Execution.step_past_end ready, rfl⟩
  | cons statement rest =>
      cases statement with
      | declare names line =>
          obtain ⟨counters, placed, -, follows⟩ := ready
          exact declare_answers placed follows
      | assign target value line =>
          obtain ⟨counters, placed, tagged, follows⟩ := ready
          exact assign_answers placed tagged follows
      | print value line =>
          obtain ⟨counters, placed, tagged, follows⟩ := ready
          exact print_answers placed tagged follows
      | loop condition body line =>
          obtain ⟨counters, start, rfl, placed, tagged, follows⟩ := ready
          exact loop_answers labelled placed tagged follows
      | branch condition whenTrue whenFalse line =>
          obtain ⟨counters, placed, tagged, follows⟩ := ready
          exact branch_answers labelled placed tagged follows

/-- A walk and an execution of the code that carries out what is pending, with the same variables. -/
inductive Related (code : Code) (lines : List Nat) : Engine → Engine → Prop where
  | intro {pending : List Statement} {index : Nat} {machine : Machine} :
      Follows code lines index pending →
      Related code lines (.tree { pending, store := machine.store })
        (.code code.routine { index, machine })

/-- Both runs have finished, or both have failed with one fault, the second at an instruction that
    was made for the line on which the first reports it. -/
def Status.Alike (lines : List Nat) : Status → Status → Prop
  | .finished, .finished => True
  | .failed error, .failed error' =>
      error.fault = error'.fault ∧
        ∃ number, error'.line = number + 1 ∧ lines[number]? = some error.line
  | _, _ => False

theorem Status.Alike.ending {lines : List Nat} {status status' : Status}
    (alike : Status.Alike lines status status') : status.ending? = status'.ending? := by
  cases status <;> cases status' <;> simp_all [Status.Alike, Status.ending?]

/-- The number of pending statements, which a walk uses up while the machine stands still. -/
def Engine.pending : Engine → Nat
  | .tree walk => walk.pending.length
  | .code _ _ => 0

theorem Steps.of_execution {routine : Routine} {n : Nat} {execution last : Execution}
    {events : List Event} (steps : Steps (Execution.step routine) n execution events last) :
    Steps Engine.step n (.code routine execution) events (.code routine last) :=
  steps.map fun _ => rfl

theorem lowering_simulation {code : Code} {lines : List Nat} {first last : Nat}
    (labelled : code.Labelled first last) :
    Simulation (Related code lines) (Status.Alike lines) Engine.pending where
  next := by
    rintro _ _ event after ⟨follows⟩ moves
    rename_i pending index machine
    have answers := follows.answers labelled machine
    cases taken : Walk.step { pending, store := machine.store } with
    | finish | fail error event' left => simp [Engine.step, taken, Step.map] at moves
    | next event' walk =>
        simp only [Engine.step, taken, Step.map, Step.next.injEq] at moves
        obtain ⟨rfl, rfl⟩ := moves
        rw [taken] at answers
        obtain ⟨n, ⟨there, machine'⟩, steps, follows, stored, smaller⟩ := answers
        have steps' := steps.of_execution
        refine ⟨n, _, steps', ?_, smaller⟩
        have related : Related code lines (.tree { walk with store := machine'.store }) _ :=
          .intro follows
        rwa [stored] at related
  ended := by
    rintro _ _ status ⟨follows⟩ ended
    rename_i pending index machine
    have answers := follows.answers labelled machine
    cases taken : Walk.step { pending, store := machine.store } with
    | next event walk => simp [Engine.step, taken, Step.map, Step.ended?] at ended
    | finish =>
        simp only [Engine.step, taken, Step.map, Step.ended?, Option.some.injEq] at ended
        subst ended
        rw [taken] at answers
        obtain ⟨n, last, steps, stops, stored⟩ := answers
        have steps' := steps.of_execution
        exact ⟨n, _, .finished, steps', by simp [Engine.step, stops, Step.map, Step.ended?], trivial,
          stored⟩
    | fail error event left =>
        simp only [Engine.step, taken, Step.map, Step.ended?, Option.some.injEq] at ended
        subst ended
        rw [taken] at answers
        obtain ⟨n, last, number, steps, fails, here, stored⟩ := answers
        have steps' := steps.of_execution
        exact ⟨n, _, .failed { fault := error.fault, line := number + 1 }, steps',
          by simp [Engine.step, fails, Step.map, Step.ended?], ⟨rfl, number, rfl, here⟩, stored⟩

mutual

/-- The names that a statement declares, anywhere in it. -/
def Statement.declared : Statement → List String
  | .declare names _ => names
  | .assign _ _ _ | .print _ _ => []
  | .loop _ body _ => Block.declared body
  | .branch _ whenTrue whenFalse _ => Block.declared whenTrue ++ Block.declared whenFalse

def Block.declared : List Statement → List String
  | [] => []
  | statement :: rest => statement.declared ++ Block.declared rest

end

namespace Code

theorem declared_append (code more : Code) :
    declared (code ++ more) = code.declared ++ more.declared :=
  List.filterMap_append

theorem declared_cons (instruction : Instruction) (code : Code) :
    declared (instruction :: code) = instruction.declared?.toList ++ code.declared := by
  cases instruction <;> rfl

end Code

theorem Expr.lower_declared (expr : Expr) (bound : Nat) : (expr.lower bound).code.declared = [] :=
  List.filterMap_eq_nil_iff.mpr fun instruction member =>
    (expr.lower_plain bound instruction member).undeclaring

mutual

theorem Statement.lower_declared (statement : Statement) (counters : Counters) :
    (statement.lower counters).1.declared = statement.declared := by
  cases statement with
  | declare names line =>
      induction names with
      | nil => rfl
      | cons name names ih => exact congrArg (name :: ·) ih
  | assign target value line | print value line =>
      simp only [Statement.lower, Code.declared_append, value.lower_declared]
      rfl
  | loop condition body line =>
      simp only [Statement.lower, Code.declared_append, Code.declared_cons, condition.lower_declared,
        Block.lower_declared body]
      exact List.append_nil _
  | branch condition whenTrue whenFalse line =>
      simp only [Statement.lower, Code.declared_append, Code.declared_cons, condition.lower_declared,
        Block.lower_declared whenTrue, Block.lower_declared whenFalse]
      exact List.append_nil _
termination_by sizeOf statement

theorem Block.lower_declared (statements : List Statement) (counters : Counters) :
    (Block.lower statements counters).1.declared = Block.declared statements := by
  cases statements with
  | nil => rfl
  | cons statement rest =>
      simp only [Block.lower, Block.declared, Code.declared_append, statement.lower_declared,
        Block.lower_declared rest]
termination_by sizeOf statements

end

namespace Program

/-- The code of a program links, so the machine starts at its first instruction. -/
theorem lower_starts (program : Program) (machine : Machine) :
    Engine.ofCode machine program.lower.code =
      .ok (.code program.lower.code.routine (.start machine program.lower.code)) :=
  Engine.ofCode_of_defined program.lower_labelled.linked machine

/-- At the start the walk has the whole program before it, and the machine its code. -/
theorem lower_related (program : Program) (machine : Machine) :
    Related program.lower.code (Block.lines program)
      (Engine.ofStatements (machine.store.declareAll (Block.declared program)) program)
      (.code program.lower.code.routine (.start machine program.lower.code)) := by
  let code := program.lower.code
  have declared : code.declared = Block.declared program := Block.lower_declared program {}
  have placed : Segment code 0 (Block.lower program {}).1 := .whole_zero _
  have follows : Follows code (Block.lines program) 0 (program ++ []) :=
    .block placed (.whole_zero _) (.finish (by simp [code, lower, Draft.program]))
  rw [List.append_nil] at follows
  have related : Related code (Block.lines program) _
      (.code code.routine (.start machine code)) := .intro follows
  simp only [declared] at related
  exact related

/-- A run of a program from a store in which everything it declares exists, and a run of its code
    from a machine with that store, cannot be told apart. -/
theorem lower_equivalent (program : Program) (machine : Machine) :
    ∃ engine, Engine.ofCode machine program.lower.code = .ok engine ∧
      (Engine.ofStatements (machine.store.declareAll (Block.declared program)) program).Equivalent
        engine :=
  ⟨_, program.lower_starts machine, (lowering_simulation program.lower_labelled).equivalent
    Status.Alike.ending (program.lower_related machine)⟩

end Program

end TinyImp
