import TinyImp.Proofs.Lowering

/-! # Where the machine fails

Each instruction is made for one node of the program: a load for a name, operations for an operator,
everything else for a statement. Tagged code has every instruction together with the line of its
node. If the walk over a program fails on a line, the machine fails at an instruction with that tag.
-/

namespace TinyImp

/-- Instructions with the lines of the nodes for which they are made. -/
abbrev TaggedCode := List (Instruction × Nat)

/-- The instructions of one node. -/
def Code.tag (line : Nat) (code : Code) : TaggedCode :=
  code.map (·, line)

@[simp]
theorem Code.tag_code (line : Nat) (code : Code) : (code.tag line).map Prod.fst = code := by
  simp [tag, Function.comp_def]

@[simp]
theorem Code.tag_lines (line : Nat) (code : Code) :
    (code.tag line).map Prod.snd = List.replicate code.length line := by
  simp [tag, Function.comp_def, List.map_const']

namespace Expr

/-- The code of an expression. What an operator adds to the code of its operands is its own. -/
def tagged : Expr → (temporaries : Nat) → TaggedCode
  | .const _ _, _ => []
  | .var name line, temporaries => [(.load (.temporary (temporaries + 1)) name, line)]
  | .unary op operand line, temporaries =>
      let part := operand.lower temporaries
      operand.tagged temporaries ++ (lowerUnary { part with code := [] } op).code.tag line
  | .binary op left right line, temporaries =>
      let leftPart := left.lower temporaries
      let rightPart := right.lower leftPart.temporaries
      left.tagged temporaries ++ right.tagged leftPart.temporaries ++
        (lowerBinary { rightPart with code := [] } op leftPart.result rightPart.result).code.tag line

theorem lowerUnary_code (part : Lowered) (op : UnaryOp) :
    (lowerUnary part op).code = part.code ++ (lowerUnary { part with code := [] } op).code := by
  cases op with
  | negate => rfl
  | not => rfl

theorem lowerBinary_code (part : Lowered) (op : BinaryOp) (left right : Operand) :
    (lowerBinary part op left right).code =
      part.code ++ (lowerBinary { part with code := [] } op left right).code := by
  unfold lowerBinary
  split
  · rfl
  · unfold lowerConnective
    split
    · simp [Lowered.truth, Lowered.compute]
    · simp [Lowered.truth, Lowered.compute]

theorem tagged_code (expr : Expr) (temporaries : Nat) :
    (expr.tagged temporaries).map Prod.fst = (expr.lower temporaries).code := by
  induction expr generalizing temporaries with
  | const value line => rfl
  | var name line => rfl
  | unary op operand line ih =>
      simp only [tagged, List.map_append, ih, Code.tag_code]
      exact (lowerUnary_code _ op).symm
  | binary op left right line ihl ihr =>
      simp only [tagged, List.map_append, ihl, ihr, Code.tag_code]
      exact (lowerBinary_code ((left.lower temporaries).after (right.lower _)) op _ _).symm

theorem tagged_lines (expr : Expr) (temporaries : Nat) :
    (expr.tagged temporaries).map Prod.snd = expr.lines := by
  induction expr generalizing temporaries with
  | const value line => rfl
  | var name line => rfl
  | unary op operand line ih =>
      simp [tagged, lines, ih, lowerUnary_length]
  | binary op left right line ihl ihr =>
      simp [tagged, lines, ihl, ihr, lowerBinary_length]

end Expr

mutual

/-- The code of a statement. Labels and jumps are made for the statement that needs them. -/
def Statement.tagged : Statement → Counters → TaggedCode
  | .declare names line, _ => Code.tag line (names.map .declare)
  | .assign target value line, counters =>
      value.tagged counters.temporaries ++
        [(.store target (value.lower counters.temporaries).result, line)]
  | .print value line, counters =>
      value.tagged counters.temporaries ++
        [(.print (value.lower counters.temporaries).result, line)]
  | .loop condition body line, counters =>
      let top := counters.labels + 1
      let bottom := counters.labels + 2
      let test := condition.lower counters.temporaries
      (.mark top, line) :: condition.tagged counters.temporaries ++
        (.jumpIfZero test.result bottom, line) ::
          Block.tagged body { temporaries := test.temporaries, labels := bottom } ++
        [(.jump top, line), (.mark bottom, line)]
  | .branch condition whenTrue whenFalse line, counters =>
      let otherwise := counters.labels + 1
      let bottom := counters.labels + 2
      let test := condition.lower counters.temporaries
      let inTrue : Counters := { temporaries := test.temporaries, labels := bottom }
      condition.tagged counters.temporaries ++ (.jumpIfZero test.result otherwise, line) ::
        Block.tagged whenTrue inTrue ++ (.jump bottom, line) :: (.mark otherwise, line) ::
          Block.tagged whenFalse (Block.lower whenTrue inTrue).2 ++ [(.mark bottom, line)]

/-- The code of statements in order. -/
def Block.tagged : List Statement → Counters → TaggedCode
  | [], _ => []
  | statement :: rest, counters =>
      statement.tagged counters ++ Block.tagged rest (statement.lower counters).2

end

mutual

theorem Statement.tagged_code (statement : Statement) (counters : Counters) :
    (statement.tagged counters).map Prod.fst = (statement.lower counters).1 := by
  cases statement with
  | declare names line => simp [Statement.tagged, Statement.lower]
  | assign target value line | print value line =>
      simp [Statement.tagged, Statement.lower, value.tagged_code]
  | loop condition body line =>
      simp [Statement.tagged, Statement.lower, condition.tagged_code, Block.tagged_code body]
  | branch condition whenTrue whenFalse line =>
      simp [Statement.tagged, Statement.lower, condition.tagged_code, Block.tagged_code whenTrue,
        Block.tagged_code whenFalse]
termination_by sizeOf statement

theorem Block.tagged_code (statements : List Statement) (counters : Counters) :
    (Block.tagged statements counters).map Prod.fst = (Block.lower statements counters).1 := by
  cases statements with
  | nil => rfl
  | cons statement rest =>
      simp [Block.tagged, Block.lower, statement.tagged_code, Block.tagged_code rest]
termination_by sizeOf statements

end

mutual

theorem Statement.tagged_lines (statement : Statement) (counters : Counters) :
    (statement.tagged counters).map Prod.snd = statement.lines := by
  cases statement with
  | declare names line => simp [Statement.tagged, Statement.lines, List.map_const']
  | assign target value line | print value line =>
      simp [Statement.tagged, Statement.lines, value.tagged_lines]
  | loop condition body line =>
      simp [Statement.tagged, Statement.lines, condition.tagged_lines, Block.tagged_lines body]
  | branch condition whenTrue whenFalse line =>
      simp [Statement.tagged, Statement.lines, condition.tagged_lines, Block.tagged_lines whenTrue,
        Block.tagged_lines whenFalse]
termination_by sizeOf statement

theorem Block.tagged_lines (statements : List Statement) (counters : Counters) :
    (Block.tagged statements counters).map Prod.snd = Block.lines statements := by
  cases statements with
  | nil => rfl
  | cons statement rest =>
      simp [Block.tagged, Block.lines, statement.tagged_lines, Block.tagged_lines rest]
termination_by sizeOf statements

end

/-- The code of a program. -/
def Program.tagged (program : Program) : TaggedCode :=
  Block.tagged program {}

/-- Where a walk fails, a run of the code comes to an instruction with the line of the failure, and
    fails there. -/
theorem Program.lower_fails (program : Program) (machine : Machine) {steps : Nat}
    {error : RuntimeError}
    (failed : ((Engine.ofStatements (machine.store.declareAll (Block.declared program))
      program).run steps).status = .failed error) :
    ∃ engine more number, Engine.ofCode machine program.lower.code = .ok engine ∧
      (engine.run more).status = .failed { fault := error.fault, line := number + 1 } ∧
      (Block.lines program)[number]? = some error.line := by
  obtain ⟨_, _, last, -, taken, fails, -⟩ := Engine.step_of_failed failed
  have ended : last.step.ended? = some (.failed error) := by
    rw [fails]
    rfl
  -- The simulation compares how both end: the fault, and the line through the tags of the code.
  obtain ⟨_, _, status, taken', ended', alike, -⟩ :=
    (lowering_simulation program.lower_labelled).reaches_end (program.lower_related machine)
      taken ended
  cases status with
  | running | finished => exact alike.elim
  | failed error' =>
      obtain ⟨fault, number, isNumber, isLine⟩ := alike
      have stopped := congrArg Run.status (Run.after_of_ends Engine.step_atomic taken' ended' 0)
      have isError : error' = { fault := error.fault, line := number + 1 } := by
        cases error'
        cases fault
        cases isNumber
        rfl
      rw [isError] at stopped
      exact ⟨_, _, number, program.lower_starts machine, stopped, isLine⟩

/-- If the walk over a program fails, the machine fails with the same fault, and the line that it
    reports is the number of an instruction made for the node at which the walk fails. -/
theorem failing_instruction_is_made_for_failing_node (program : Program) (machine : Machine)
    {steps : Nat} {error : RuntimeError}
    (failed : ((Engine.ofStatements (machine.store.declareAll (Block.declared program))
      program).run steps).status = .failed error) :
    program.tagged.map Prod.fst = program.lower.code ∧
    ∃ engine more number instruction, Engine.ofCode machine program.lower.code = .ok engine ∧
      (engine.run more).status = .failed { fault := error.fault, line := number + 1 } ∧
      program.tagged[number]? = some (instruction, error.line) := by
  obtain ⟨engine, more, number, linked, stopped, isLine⟩ := program.lower_fails machine failed
  rw [← Block.tagged_lines program {}, List.getElem?_map, Option.map_eq_some_iff] at isLine
  obtain ⟨⟨instruction, _⟩, found, rfl⟩ := isLine
  exact ⟨Block.tagged_code program {}, engine, more, number, instruction, linked, stopped, found⟩

/-- The quotient in the loop is one in the first round and fails in the second. -/
theorem second_round_fails_at_the_quotient :
    let program : Program :=
      [.declare ["x"] 1,
        .loop (.binary .less (.var "x" 3) (.const 3 3) 3)
          [.assign "x" (.binary .add (.var "x" 5) (.binary .div (.const 1 6)
            (.binary .sub (.const 1 7) (.var "x" 7) 7) 6) 5) 4] 2]
    ((Engine.ofStatements (Store.declareAll {} ["x"]) program).run 5).status =
      .failed { fault := .divisionByZero, line := 6 } ∧
    program.tagged.map Prod.snd = [1, 2, 3, 3, 2, 5, 7, 7, 6, 5, 4, 2, 2] ∧
    ∃ engine more, Engine.ofCode {} program.lower.code = .ok engine ∧
      (engine.run more).status = .failed { fault := .divisionByZero, line := 9 } := by
  intro program
  have failed : ((Engine.ofStatements (Store.declareAll {} ["x"]) program).run 5).status =
      .failed { fault := .divisionByZero, line := 6 } := rfl
  have lines : program.tagged.map Prod.snd = [1, 2, 3, 3, 2, 5, 7, 7, 6, 5, 4, 2, 2] := rfl
  refine ⟨failed, lines, ?_⟩
  obtain ⟨-, engine, more, number, instruction, linked, stopped, found⟩ :=
    failing_instruction_is_made_for_failing_node program {} failed
  have isLine : (program.tagged.map Prod.snd)[number]? = some 6 := by simp [found]
  rw [lines] at isLine
  -- Only one instruction carries the line of the quotient.
  have isQuotient : number = 8 := by
    have atEight : ∀ number < 13,
        [1, 2, 3, 3, 2, 5, 7, 7, 6, 5, 4, 2, 2][number]? = some 6 → number = 8 := by decide
    exact atEight number (List.getElem?_eq_some_iff.mp isLine).1 isLine
  rw [isQuotient] at stopped
  exact ⟨engine, more, linked, stopped⟩

end TinyImp
