import TinyImp.Code.Lowering
import TinyImp.Expr.Eval
import TinyImp.Proofs.Execution

/-! # The code of an expression computes its value

The code of an expression writes only temporaries that are numbered above those in use. So the value
of a left operand is still there when the code of the right operand has run, and no variable changes
on the way. Where evaluation fails, so does the code, with the same fault, at an instruction that was
made for the node at which evaluation fails.
-/

namespace TinyImp

namespace Machine

@[simp]
theorem run_write_temporary (number : Nat) (value : Value) (ongoing : Ongoing Machine) :
    (write value (.temporary number)).run ongoing =
      .ok () { ongoing with state := ongoing.state.set number value } := rfl

@[simp]
theorem read_const (machine : Machine) (value : Value) : machine.read (.const value) = .ok value := rfl

@[simp]
theorem read_set_self (machine : Machine) (number : Nat) (value : Value) :
    (machine.set number value).read (.temporary number) = .ok value := by
  simp [read, set]

/-- Nothing but temporaries above a bound has changed. -/
structure Keeps (bound : Nat) (before after : Machine) : Prop where
  store : after.store = before.store
  temporaries : ∀ number ≤ bound, after.temporaries[number]? = before.temporaries[number]?

namespace Keeps

variable {bound lower : Nat} {before middle after : Machine}

theorem refl (bound : Nat) (machine : Machine) : machine.Keeps bound machine :=
  ⟨rfl, fun _ _ => rfl⟩

theorem trans (first : before.Keeps bound middle) (second : middle.Keeps bound after) :
    before.Keeps bound after := by
  refine ⟨second.store.trans first.store, ?_⟩
  intro number small
  exact (second.temporaries number small).trans (first.temporaries number small)

theorem mono (keeps : before.Keeps bound after) (le : lower ≤ bound) : before.Keeps lower after :=
  ⟨keeps.store, fun number small => keeps.temporaries number (Nat.le_trans small le)⟩

theorem set (machine : Machine) (value : Value) {number : Nat} (above : bound < number) :
    machine.Keeps bound (machine.set number value) := by
  refine ⟨rfl, ?_⟩
  intro other small
  have different : number ≠ other := by omega
  simp [Machine.set, Std.ExtTreeMap.getElem?_insert, different]

end Keeps

end Machine

/-- A constant, or a temporary up to a bound. -/
def Operand.Below (bound : Nat) : Operand → Prop
  | .temporary number => number ≤ bound
  | .const _ => True

theorem Machine.Keeps.read {bound : Nat} {before after : Machine} {operand : Operand}
    (keeps : before.Keeps bound after) (below : operand.Below bound) :
    after.read operand = before.read operand := by
  cases operand with
  | const value => rfl
  | temporary number => simp only [Machine.read, keeps.temporaries number below]

namespace Expr

/-- The code of a right operand after that of the left one. -/
def Lowered.after (first second : Lowered) : Lowered :=
  { second with code := first.code ++ second.code }

theorem lower_binary (op : BinaryOp) (left right : Expr) (line bound : Nat) :
    (binary op left right line).lower bound =
      lowerBinary ((left.lower bound).after (right.lower (left.lower bound).temporaries)) op
        (left.lower bound).result (right.lower (left.lower bound).temporaries).result := rfl

/-- Operators are lowered by instructions that compute, so whatever these keep is kept. -/
theorem lowerUnary_closed {P : Lowered → Prop} {part : Lowered}
    (closed : ∀ part op left right, P part → P (part.compute op left right)) (op : UnaryOp)
    (holds : P part) : P (lowerUnary part op) := by
  cases op with
  | negate => exact closed _ _ _ _ holds
  | not => exact closed _ _ _ _ holds

theorem lowerBinary_closed {P : Lowered → Prop} {part : Lowered}
    (closed : ∀ part op left right, P part → P (part.compute op left right)) (op : BinaryOp)
    (left right : Operand) (holds : P part) : P (lowerBinary part op left right) := by
  unfold lowerBinary
  split
  · exact closed _ _ _ _ holds
  · have truths := closed _ .neq right (.const 0) (closed _ .neq left (.const 0) holds)
    unfold lowerConnective
    split
    · exact closed _ _ _ _ truths
    · exact closed _ _ _ _ (closed _ _ _ _ truths)

/-- More code and more temporaries. -/
structure Lowered.Grows (before after : Lowered) : Prop where
  code : before.code <+: after.code
  temporaries : before.temporaries ≤ after.temporaries

namespace Lowered.Grows

theorem refl (part : Lowered) : part.Grows part :=
  ⟨List.prefix_rfl, Nat.le_refl _⟩

theorem trans {first second third : Lowered} (left : first.Grows second)
    (right : second.Grows third) : first.Grows third :=
  ⟨left.code.trans right.code, Nat.le_trans left.temporaries right.temporaries⟩

theorem compute (part : Lowered) (op : Opcode) (left right : Operand) :
    part.Grows (part.compute op left right) :=
  ⟨List.prefix_append _ _, Nat.le_succ _⟩

end Lowered.Grows

theorem lowerUnary_grows (part : Lowered) (op : UnaryOp) : part.Grows (lowerUnary part op) :=
  lowerUnary_closed (fun _ _ _ _ grows => grows.trans (.compute _ _ _ _)) op (.refl part)

theorem lowerBinary_grows (part : Lowered) (op : BinaryOp) (left right : Operand) :
    part.Grows (lowerBinary part op left right) :=
  lowerBinary_closed (fun _ _ _ _ grows => grows.trans (.compute _ _ _ _)) op left right (.refl part)

theorem le_lower_temporaries (expr : Expr) (bound : Nat) : bound ≤ (expr.lower bound).temporaries := by
  induction expr generalizing bound with
  | const value line => exact Nat.le_refl bound
  | var name line => exact Nat.le_succ bound
  | unary op operand line ih =>
      exact Nat.le_trans (ih bound) (lowerUnary_grows _ op).temporaries
  | binary op left right line ihl ihr =>
      have operands := Nat.le_trans (ihl bound) (ihr (left.lower bound).temporaries)
      have operator := (lowerBinary_grows
        ((left.lower bound).after (right.lower (left.lower bound).temporaries)) op
        (left.lower bound).result (right.lower (left.lower bound).temporaries).result).temporaries
      exact Nat.le_trans operands operator

theorem lower_result_below (expr : Expr) (bound : Nat) :
    (expr.lower bound).result.Below (expr.lower bound).temporaries := by
  induction expr generalizing bound with
  | const value line => trivial
  | var name line => exact Nat.le_refl _
  | unary op operand line ih =>
      exact lowerUnary_closed (P := fun part => part.result.Below part.temporaries)
        (fun _ _ _ _ _ => Nat.le_refl _) op (ih bound)
  | binary op left right line _ ihr =>
      exact lowerBinary_closed (P := fun part => part.result.Below part.temporaries)
        (fun _ _ _ _ _ => Nat.le_refl _) op _ _ (ihr (left.lower bound).temporaries)

end Expr

/-- The number of instructions that compute an operator from the values of its operands. -/
def BinaryOp.width : BinaryOp → Nat
  | .and => 3
  | .or => 4
  | _ => 1

namespace Expr

/-- The line of the node for which each instruction of the code is made. -/
def lines : Expr → List Nat
  | .const _ _ => []
  | .var _ line => [line]
  | .unary _ operand line => operand.lines ++ [line]
  | .binary op left right line => left.lines ++ right.lines ++ List.replicate op.width line

theorem lowerUnary_length (part : Lowered) (op : UnaryOp) :
    (lowerUnary part op).code.length = part.code.length + 1 := by
  cases op <;> simp [lowerUnary, Lowered.compute]

theorem lowerBinary_length (part : Lowered) (op : BinaryOp) (left right : Operand) :
    (lowerBinary part op left right).code.length = part.code.length + op.width := by
  cases op <;>
    simp [lowerBinary, lowerConnective, Lowered.truth, Lowered.compute, Opcode.ofOperator?,
      BinaryOp.width]

theorem lines_length (expr : Expr) (bound : Nat) :
    expr.lines.length = (expr.lower bound).code.length := by
  induction expr generalizing bound with
  | const value line | var name line => rfl
  | unary op operand line ih => simp [lines, lower, lowerUnary_length, ih bound]
  | binary op left right line ihl ihr =>
      rw [lower_binary, lowerBinary_length]
      simp [lines, Lowered.after, ihl bound, ihr (left.lower bound).temporaries, Nat.add_assoc]

/-- The machine has run the code of a part that stands at an index. -/
structure Reaches (code : Code) (index : Nat) (before : Machine) (bound : Nat) (part : Lowered)
    (after : Machine) : Prop where
  steps : Steps (Execution.step code.routine) part.code.length { index, machine := before } []
    { index := index + part.code.length, machine := after }
  keeps : before.Keeps bound after

/-- Running the code of a part that stands at an index leads to a value or to a fault. A fault arises
    at an instruction that carries its line. -/
inductive Computes (code : Code) (index : Nat) (before : Machine) (bound : Nat) (part : Lowered)
    (lines : List Nat) : Except RuntimeError Value → Prop where
  | value {result : Value} {after : Machine} :
      Reaches code index before bound part after → after.read part.result = .ok result →
      Computes code index before bound part lines (.ok result)
  | fault {error : RuntimeError} {offset : Nat} {after : Machine} :
      Steps (Execution.step code.routine) offset { index, machine := before } []
        { index := index + offset, machine := after } →
      before.Keeps bound after →
      Execution.step code.routine { index := index + offset, machine := after } =
        .fail { fault := error.fault, line := index + offset + 1 } none
          { index := index + offset, machine := after } →
      lines[offset]? = some error.line →
      Computes code index before bound part lines (.error error)

section

variable {code : Code} {index bound : Nat} {before middle : Machine} {part : Lowered}
  {op : Opcode} {left right : Operand} {leftValue rightValue : Value}

theorem Reaches.compute {result : Value} (reached : Reaches code index before bound part middle)
    (placed : Segment code index (part.compute op left right).code)
    (above : bound ≤ part.temporaries) (readLeft : middle.read left = .ok leftValue)
    (readRight : middle.read right = .ok rightValue)
    (applied : op.apply leftValue rightValue = .ok result) :
    Reaches code index before bound (part.compute op left right)
      (middle.set (part.temporaries + 1) result) := by
  simp only [Lowered.compute, Segment.append_iff, Segment.cons_iff] at placed
  have performed : (Machine.perform code.targets
      (.compute op (.temporary (part.temporaries + 1)) left right)).run { state := middle } =
        .ok none { state := middle.set (part.temporaries + 1) result } := by
    simp [-bind_pure_comp, Machine.perform, readLeft, readRight, applied]
  have last := Execution.step_of_perform placed.2.1 performed
  refine ⟨?_, reached.keeps.trans (.set middle result (by omega))⟩
  simpa [Lowered.compute, Nat.add_assoc] using reached.steps.trans (.one last)

theorem Reaches.compute_fault {lines : List Nat} {line : Nat} {fault : RuntimeFault}
    (reached : Reaches code index before bound part middle)
    (placed : Segment code index (part.compute op left right).code)
    (readLeft : middle.read left = .ok leftValue) (readRight : middle.read right = .ok rightValue)
    (applied : op.apply leftValue rightValue = .error fault)
    (here : lines[part.code.length]? = some line) :
    Computes code index before bound (part.compute op left right) lines
      (.error { fault, line }) := by
  simp only [Lowered.compute, Segment.append_iff, Segment.cons_iff] at placed
  have performed : (Machine.perform code.targets
      (.compute op (.temporary (part.temporaries + 1)) left right)).run { state := middle } =
        .error fault { state := middle } := by
    simp [Machine.perform, readLeft, readRight, applied]
  exact .fault reached.steps reached.keeps (Execution.step_of_fault placed.2.1 performed) here

/-- One instruction computes what its operation gives for the values of its operands. -/
theorem Reaches.computes {lines : List Nat} {line : Nat}
    (reached : Reaches code index before bound part middle)
    (placed : Segment code index (part.compute op left right).code)
    (above : bound ≤ part.temporaries) (readLeft : middle.read left = .ok leftValue)
    (readRight : middle.read right = .ok rightValue)
    (here : lines[part.code.length]? = some line) :
    Computes code index before bound (part.compute op left right) lines
      (locate line (op.apply leftValue rightValue)) := by
  cases applied : op.apply leftValue rightValue with
  | ok result =>
      exact .value (reached.compute placed above readLeft readRight applied)
        (Machine.read_set_self _ _ _)
  | error fault => exact reached.compute_fault placed readLeft readRight applied here

end

end Expr

theorem Value.sub_zero_left (value : Value) : Value.sub 0 value = value.negate := by
  simp [Value.sub, Value.negate]

theorem Opcode.neq_zero (value : Value) :
    Opcode.neq.apply value 0 = .ok (.ofBool value.isTrue) := rfl

theorem Opcode.eq_zero (value : Value) :
    Opcode.eq.apply value 0 = .ok (.ofBool !value.isTrue) := by
  simp [Opcode.apply, Value.isTrue, bne]

theorem Opcode.mul_truths (left right : Bool) :
    Opcode.mul.apply (.ofBool left) (.ofBool right) = .ok (.ofBool (left && right)) := by
  cases left <;> cases right <;> rfl

/-- The sum of two truth values is in range and is zero only if both of them are. -/
theorem Opcode.add_truths (left right : Bool) :
    ∃ sum, Opcode.add.apply (.ofBool left) (.ofBool right) = .ok sum ∧
      sum.isTrue = (left || right) := by
  cases left <;> cases right <;> exact ⟨_, rfl, rfl⟩

theorem Opcode.apply_of_operator {op : BinaryOp} {opcode : Opcode}
    (found : Opcode.ofOperator? op = some opcode) (left right : Value) :
    opcode.apply left right = op.apply left right := by
  cases op <;> simp [Opcode.ofOperator?] at found <;> subst found <;> rfl

namespace Expr

section

variable {code : Code} {index bound : Nat} {before middle : Machine} {part : Lowered}
  {left right : Operand} {leftValue rightValue : Value} {lines : List Nat} {line : Nat}

theorem lowerUnary_computes {value : Value} (op : UnaryOp)
    (reached : Reaches code index before bound part middle)
    (placed : Segment code index (lowerUnary part op).code)
    (above : bound ≤ part.temporaries) (readOperand : middle.read part.result = .ok value)
    (here : lines[part.code.length]? = some line) :
    Computes code index before bound (lowerUnary part op) lines (locate line (op.apply value)) := by
  cases op with
  | negate =>
      have computed := reached.computes placed above (Machine.read_const middle 0) readOperand here
      rwa [Opcode.apply, Value.sub_zero_left] at computed
  | not =>
      have computed := reached.computes placed above readOperand (Machine.read_const middle 0) here
      rwa [Opcode.eq_zero] at computed

theorem Reaches.truth {operand : Operand} {value : Value}
    (reached : Reaches code index before bound part middle)
    (placed : Segment code index (part.truth operand).code)
    (above : bound ≤ part.temporaries) (readOperand : middle.read operand = .ok value) :
    Reaches code index before bound (part.truth operand)
      (middle.set (part.temporaries + 1) (.ofBool value.isTrue)) :=
  reached.compute placed above readOperand (Machine.read_const middle 0) (Opcode.neq_zero value)

theorem lowerConnective_computes (isAnd : Bool)
    (reached : Reaches code index before bound part middle)
    (placed : Segment code index (lowerConnective part left right isAnd).code)
    (above : bound ≤ part.temporaries) (rightBelow : right.Below part.temporaries)
    (readLeft : middle.read left = .ok leftValue) (readRight : middle.read right = .ok rightValue) :
    Computes code index before bound (lowerConnective part left right isAnd) lines
      (.ok (.ofBool (if isAnd then leftValue.isTrue && rightValue.isTrue
        else leftValue.isTrue || rightValue.isTrue))) := by
  let number := part.temporaries
  let withLeft := middle.set (number + 1) (.ofBool leftValue.isTrue)
  let withBoth := withLeft.set (number + 2) (.ofBool rightValue.isTrue)
  have readRight' : withLeft.read right = .ok rightValue := by
    rw [(Machine.Keeps.set middle _ (Nat.lt_succ_self number)).read rightBelow, readRight]
  have readFirst : withBoth.read (.temporary (number + 1)) = .ok (.ofBool leftValue.isTrue) := by
    rw [(Machine.Keeps.set withLeft _ (Nat.lt_succ_self (number + 1))).read (Nat.le_refl _)]
    exact Machine.read_set_self _ _ _
  have readSecond : withBoth.read (.temporary (number + 2)) = .ok (.ofBool rightValue.isTrue) :=
    Machine.read_set_self _ _ _
  have growsLeft := Lowered.Grows.compute part .neq left (.const 0)
  have growsRight := Lowered.Grows.compute (part.truth left) .neq right (.const 0)
  have above' : bound ≤ ((part.truth left).truth right).temporaries :=
    Nat.le_trans above (growsLeft.trans growsRight).temporaries
  cases isAnd with
  | true =>
      have growsProduct := Lowered.Grows.compute ((part.truth left).truth right) .mul
        (part.truth left).result ((part.truth left).truth right).result
      have placedRight := placed.of_prefix growsProduct.code
      have first := reached.truth (placedRight.of_prefix growsRight.code) above readLeft
      have second := first.truth placedRight (Nat.le_trans above growsLeft.temporaries) readRight'
      exact .value (second.compute placed above' readFirst readSecond (Opcode.mul_truths _ _))
        (Machine.read_set_self _ _ _)
  | false =>
      obtain ⟨sum, added, truth⟩ := Opcode.add_truths leftValue.isTrue rightValue.isTrue
      have growsSum := Lowered.Grows.compute ((part.truth left).truth right) .add
        (part.truth left).result ((part.truth left).truth right).result
      have placedSum := placed.of_prefix (Lowered.Grows.compute _ .neq _ (.const 0)).code
      have placedRight := placedSum.of_prefix growsSum.code
      have first := reached.truth (placedRight.of_prefix growsRight.code) above readLeft
      have second := first.truth placedRight (Nat.le_trans above growsLeft.temporaries) readRight'
      have third := second.compute placedSum above' readFirst readSecond added
      have fourth := third.truth placed (Nat.le_trans above' growsSum.temporaries)
        (Machine.read_set_self _ _ _)
      rw [truth] at fourth
      exact .value fourth (Machine.read_set_self _ _ _)

theorem lowerBinary_computes (op : BinaryOp) (reached : Reaches code index before bound part middle)
    (placed : Segment code index (lowerBinary part op left right).code)
    (above : bound ≤ part.temporaries) (rightBelow : right.Below part.temporaries)
    (readLeft : middle.read left = .ok leftValue) (readRight : middle.read right = .ok rightValue)
    (here : lines[part.code.length]? = some line) :
    Computes code index before bound (lowerBinary part op left right) lines
      (locate line (op.apply leftValue rightValue)) := by
  cases found : Opcode.ofOperator? op with
  | some opcode =>
      simp only [lowerBinary, found] at placed ⊢
      rw [← Opcode.apply_of_operator found]
      exact reached.computes placed above readLeft readRight here
  | none =>
      simp only [lowerBinary, found] at placed ⊢
      have computed : Computes code index before bound _ lines _ :=
        lowerConnective_computes (op = .and) reached placed above rightBelow readLeft readRight
      cases op <;> simp [Opcode.ofOperator?] at found <;> exact computed

end

theorem Computes.fault_mono {code : Code} {index bound : Nat} {before : Machine}
    {part whole : Lowered} {lines more : List Nat} {error : RuntimeError}
    (computed : Computes code index before bound part lines (.error error)) :
    Computes code index before bound whole (lines ++ more) (.error error) := by
  cases computed with
  | fault steps keeps fails here =>
      refine .fault steps keeps fails ?_
      rw [List.getElem?_append_left (List.getElem?_eq_some_iff.mp here).1, here]

/-- What comes after the code of a left operand is computed from where that code leads. -/
theorem Computes.fault_after {code : Code} {index bound : Nat} {before middle : Machine}
    {first part whole : Lowered} {firstLines lines more : List Nat} {error : RuntimeError}
    (reached : Reaches code index before bound first middle)
    (length : firstLines.length = first.code.length) (above : bound ≤ first.temporaries)
    (computed : Computes code (index + first.code.length) middle first.temporaries part lines
      (.error error)) :
    Computes code index before bound whole (firstLines ++ lines ++ more) (.error error) := by
  cases computed with
  | @fault _ offset after steps keeps fails here =>
      have inside : firstLines.length + offset < (firstLines ++ lines).length := by
        have := (List.getElem?_eq_some_iff.mp here).1
        simp only [List.length_append]
        omega
      have tagged : (firstLines ++ lines ++ more)[first.code.length + offset]? = some error.line := by
        rw [← length, List.getElem?_append_left inside, List.getElem?_append_right (by omega)]
        simpa using here
      have steps' := reached.steps.trans steps
      rw [Nat.add_assoc] at steps' fails
      exact .fault steps' (reached.keeps.trans (keeps.mono above)) fails tagged

theorem Reaches.after {code : Code} {index bound : Nat} {before middle last : Machine}
    {first second : Lowered} (reached : Reaches code index before bound first middle)
    (above : bound ≤ first.temporaries)
    (next : Reaches code (index + first.code.length) middle first.temporaries second last) :
    Reaches code index before bound (first.after second) last := by
  refine ⟨?_, reached.keeps.trans (next.keeps.mono above)⟩
  simpa [Lowered.after, Nat.add_assoc] using reached.steps.trans next.steps

/-- The code of an expression computes the value of the expression, or fails where that does. -/
theorem lower_computes (expr : Expr) {code : Code} {index bound : Nat} (machine : Machine)
    (placed : Segment code index (expr.lower bound).code) :
    Computes code index machine bound (expr.lower bound) expr.lines (expr.eval machine.store) := by
  induction expr generalizing index bound machine with
  | const value line =>
      exact .value ⟨.refl _, .refl bound machine⟩ (Machine.read_const machine value)
  | var name line =>
      simp only [lower, Segment.cons_iff] at placed
      cases found : machine.store.get? name with
      | none =>
          have performed : (Machine.perform code.targets (.load (.temporary (bound + 1)) name)).run
              { state := machine } = .error (.unboundVariable name) { state := machine } := by
            simp [Machine.perform, Machine.fetch, found]
          simp only [eval, found]
          exact .fault (.refl _) (.refl bound machine)
            (Execution.step_of_fault placed.1 performed) rfl
      | some value =>
          have performed : (Machine.perform code.targets (.load (.temporary (bound + 1)) name)).run
              { state := machine } = .ok none { state := machine.set (bound + 1) value } := by
            simp [-bind_pure_comp, Machine.perform, Machine.fetch, found]
          simp only [eval, found]
          exact .value ⟨.one (Execution.step_of_perform placed.1 performed),
            .set machine value (Nat.lt_succ_self bound)⟩ (Machine.read_set_self _ _ _)
  | unary op operand line ih =>
      simp only [eval]
      have computed := ih machine (placed.of_prefix (lowerUnary_grows _ op).code)
      cases evaluated : operand.eval machine.store with
      | error error =>
          rw [evaluated] at computed
          exact computed.fault_mono
      | ok value =>
          rw [evaluated] at computed
          cases computed with
          | value reached readOperand =>
              refine lowerUnary_computes op reached placed (le_lower_temporaries operand bound)
                readOperand ?_
              simp [lines, lines_length operand bound]
  | binary op left right line ihl ihr =>
      simp only [eval]
      rw [lower_binary] at placed ⊢
      have operands := placed.of_prefix (lowerBinary_grows _ op _ _).code
      simp only [Lowered.after, Segment.append_iff] at operands
      have computed := ihl machine operands.1
      cases evaluated : left.eval machine.store with
      | error error =>
          rw [evaluated] at computed
          rw [lines, List.append_assoc]
          exact computed.fault_mono
      | ok leftValue =>
          rw [evaluated] at computed
          cases computed with
          | @value _ middle reached readLeft =>
              have above := le_lower_temporaries left bound
              have computed := ihr middle operands.2
              rw [reached.keeps.store] at computed
              cases evaluated' : right.eval machine.store with
              | error error =>
                  rw [evaluated'] at computed
                  exact computed.fault_after reached (lines_length left bound) above
              | ok rightValue =>
                  rw [evaluated'] at computed
                  cases computed with
                  | @value _ last next readRight =>
                      have keepsLeft := next.keeps.read (lower_result_below left bound)
                      refine lowerBinary_computes op (reached.after above next) placed
                        (Nat.le_trans above (le_lower_temporaries right _))
                        (lower_result_below right _) (keepsLeft.trans readLeft) readRight ?_
                      have positive : 0 < op.width := by cases op <;> simp [BinaryOp.width]
                      simp [lines, Lowered.after, lines_length left bound,
                        lines_length right (left.lower bound).temporaries, positive]

end Expr

end TinyImp
