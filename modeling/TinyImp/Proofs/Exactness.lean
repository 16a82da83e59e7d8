import TinyImp.Expr.Eval
import TinyImp.Proofs.ExprParsing

/-! # Evaluation is exact

An expression has a meaning over the integers of any size. Evaluation works on values of 64 bits,
but it never departs from that meaning: it yields the exact integer, or it stops at the first node,
in postorder, at which the meaning is missing or out of range.
-/

namespace TinyImp

/-- The integers that are values. -/
def Value.InRange (n : Int) : Prop :=
  -2 ^ 63 ≤ n ∧ n < 2 ^ 63

instance (n : Int) : Decidable (Value.InRange n) :=
  inferInstanceAs (Decidable (_ ∧ _))

/-- What a prefix operator computes over the integers. -/
def UnaryOp.denote : UnaryOp → Int → Int
  | .negate, n => -n
  | .not, n => if n = 0 then 1 else 0

/-- What a binary operator computes over the integers. A quotient is rounded toward zero; one with
    divisor zero has no meaning, and is never asked for. -/
def BinaryOp.denote : BinaryOp → Int → Int → Int
  | .mul, m, n => m * n
  | .div, m, n => m.tdiv n
  | .add, m, n => m + n
  | .sub, m, n => m - n
  | .less, m, n => if m < n then 1 else 0
  | .greater, m, n => if n < m then 1 else 0
  | .lessEqual, m, n => if m ≤ n then 1 else 0
  | .greaterEqual, m, n => if n ≤ m then 1 else 0
  | .equal, m, n => if m = n then 1 else 0
  | .notEqual, m, n => if m ≠ n then 1 else 0
  | .and, m, n => if m ≠ 0 ∧ n ≠ 0 then 1 else 0
  | .or, m, n => if m ≠ 0 ∨ n ≠ 0 then 1 else 0

namespace Expr

def line : Expr → Nat
  | .const _ line | .var _ line | .unary _ _ line | .binary _ _ _ line => line

/-- The value of an expression over the integers. A variable that does not exist has no meaning
    either. -/
def denote (store : Store) : Expr → Int
  | .const value _ => value.toInt
  | .var name _ => ((store.get? name).getD 0).toInt
  | .unary op operand _ => op.denote (operand.denote store)
  | .binary op left right _ => op.denote (left.denote store) (right.denote store)

/-- Every node of an expression, after the nodes below it, of which those on the left come first. -/
def postorder : Expr → List Expr
  | .const value line => [.const value line]
  | .var name line => [.var name line]
  | .unary op operand line => operand.postorder ++ [.unary op operand line]
  | .binary op left right line =>
      left.postorder ++ right.postorder ++ [.binary op left right line]

/-- Every part of an expression has a meaning, and it is a value. -/
structure Exact (store : Store) (expr : Expr) : Prop where
  bound : ∀ name line, .var name line ∈ expr.postorder → (store.get? name).isSome
  divisors : ∀ left right line, .binary .div left right line ∈ expr.postorder →
    right.denote store ≠ 0
  inRange : ∀ node ∈ expr.postorder, Value.InRange (node.denote store)

/-- What can be wrong at a node, apart from the nodes below it. -/
inductive FailsAt (store : Store) : Expr → RuntimeFault → Prop where
  | unbound {name : String} {line : Nat} :
      store.get? name = none →
      FailsAt store (.var name line) (.unboundVariable name)
  | zeroDivisor {left right : Expr} {line : Nat} :
      right.denote store = 0 →
      FailsAt store (.binary .div left right line) .divisionByZero
  | overflow {node : Expr} :
      ¬ Value.InRange (node.denote store) →
      FailsAt store node .overflow

/-- Nothing is wrong at any of the nodes. -/
def AllSound (store : Store) (nodes : List Expr) : Prop :=
  ∀ node ∈ nodes, ∀ fault, ¬ node.FailsAt store fault

/-- Of the nodes this is the first one at which something is wrong. -/
def FirstFailure (store : Store) (nodes : List Expr) (error : RuntimeError) : Prop :=
  ∃ before node after, nodes = before ++ node :: after ∧ AllSound store before ∧
    node.FailsAt store error.fault ∧ error.line = node.line

end Expr

theorem Value.inRange (value : Value) : Value.InRange value.toInt :=
  ⟨value.le_toInt, value.toInt_lt⟩

/-- An exact result is the value equal to it, if there is one. -/
theorem Value.exact_eq_ok_iff {n : Int} {value : Value} :
    Value.exact n = .ok value ↔ n = value.toInt := by
  rw [← Value.ofInt?_eq_some_iff]
  unfold Value.exact
  split
  next result found => simp [found]
  next missing => simp [missing]

theorem Value.exact_eq_error_iff {n : Int} {fault : RuntimeFault} :
    Value.exact n = .error fault ↔ ¬ Value.InRange n ∧ fault = .overflow := by
  have range : Value.InRange n ↔ Int64.minValue.toInt ≤ n ∧ n ≤ Int64.maxValue.toInt := by
    rw [Value.InRange, Int64.toInt_minValue, Int64.toInt_maxValue]
    omega
  unfold Value.exact Value.ofInt?
  grind

theorem Value.toInt_ofBool (truth : Bool) :
    (Value.ofBool truth).toInt = if truth then 1 else 0 := by
  cases truth <;> rfl

theorem Value.isTrue_iff (value : Value) : value.isTrue ↔ value.toInt ≠ 0 := by
  have zero : value = 0 ↔ value.toInt = 0 := by
    rw [← Int64.toInt_inj]
    rfl
  simp [Value.isTrue, zero]

/-- Prefix operators compute over the integers, and then look at the range. -/
theorem UnaryOp.apply_eq_exact (op : UnaryOp) (value : Value) :
    op.apply value = Value.exact (op.denote value.toInt) := by
  cases op with
  | negate => rfl
  | not =>
      symm
      rw [UnaryOp.apply, Value.exact_eq_ok_iff, Value.toInt_ofBool]
      have zero := value.isTrue_iff
      grind [UnaryOp.denote]

/-- So do binary operators, but for a division by zero. -/
theorem BinaryOp.apply_eq_exact (op : BinaryOp) (left right : Value)
    (sound : op = .div → right.toInt ≠ 0) :
    op.apply left right = Value.exact (op.denote left.toInt right.toInt) := by
  have leftTrue := left.isTrue_iff
  have rightTrue := right.isTrue_iff
  cases op with
  | mul | add | sub => rfl
  | div =>
      have nonzero : right ≠ 0 := by
        intro zero
        apply sound rfl
        rw [zero]
        rfl
      simp [BinaryOp.apply, Value.div, nonzero, BinaryOp.denote]
  | _ =>
      symm
      rw [BinaryOp.apply, Value.exact_eq_ok_iff, Value.toInt_ofBool]
      simp [BinaryOp.denote, Int64.lt_iff_toInt_lt, Int64.le_iff_toInt_le, ← Int64.toInt_inj,
        leftTrue, rightTrue]

theorem BinaryOp.apply_div_zero {left right : Value} (zero : right.toInt = 0) :
    BinaryOp.div.apply left right = .error .divisionByZero := by
  have isZero : right = 0 := Int64.toInt_inj.mp zero
  simp [BinaryOp.apply, Value.div, isZero]

namespace Expr

variable {store : Store}

theorem denote_inRange_of_unbound {name : String} {line : Nat} (missing : store.get? name = none) :
    Value.InRange ((Expr.var name line).denote store) := by
  simp only [denote, missing]
  exact Value.inRange _

theorem denote_inRange_of_zeroDivisor {left right : Expr} {line : Nat}
    (zero : right.denote store = 0) :
    Value.InRange ((Expr.binary .div left right line).denote store) := by
  simp only [denote, BinaryOp.denote, zero, Int.tdiv_zero]
  decide

/-- A node fails in one way only: where a meaning is missing, the integer that stands for it is in
    range. -/
theorem FailsAt.unique {node : Expr} {fault other : RuntimeFault} (fails : node.FailsAt store fault)
    (failsOther : node.FailsAt store other) : fault = other := by
  cases fails with
  | unbound missing =>
      cases failsOther with
      | unbound => rfl
      | overflow beyond => exact absurd (denote_inRange_of_unbound missing) beyond
  | zeroDivisor zero =>
      cases failsOther with
      | zeroDivisor => rfl
      | overflow beyond => exact absurd (denote_inRange_of_zeroDivisor zero) beyond
  | overflow beyond =>
      cases failsOther with
      | unbound missing => exact absurd (denote_inRange_of_unbound missing) beyond
      | zeroDivisor zero => exact absurd (denote_inRange_of_zeroDivisor zero) beyond
      | overflow => rfl

theorem exact_iff_allSound (expr : Expr) : expr.Exact store ↔ AllSound store expr.postorder := by
  constructor
  · intro exactly node member fault fails
    cases fails with
    | unbound missing =>
        have found := exactly.bound _ _ member
        simp [missing] at found
    | zeroDivisor zero => exact exactly.divisors _ _ _ member zero
    | overflow beyond => exact beyond (exactly.inRange node member)
  · intro sound
    constructor
    · intro name line member
      apply Option.isSome_iff_ne_none.mpr
      intro missing
      exact sound _ member _ (.unbound missing)
    · intro left right line member zero
      exact sound _ member _ (.zeroDivisor zero)
    · intro node member
      apply Decidable.of_not_not
      intro beyond
      exact sound node member _ (.overflow beyond)

theorem allSound_append {nodes more : List Expr} :
    AllSound store (nodes ++ more) ↔ AllSound store nodes ∧ AllSound store more :=
  List.forall_mem_append

theorem allSound_singleton {node : Expr} :
    AllSound store [node] ↔ ∀ fault, ¬ node.FailsAt store fault :=
  List.forall_mem_singleton

namespace FirstFailure

variable {nodes more : List Expr} {error other : RuntimeError}

theorem append (first : FirstFailure store nodes error) (more : List Expr) :
    FirstFailure store (nodes ++ more) error := by
  obtain ⟨before, node, after, rfl, sound, fails, line⟩ := first
  exact ⟨before, node, after ++ more, by simp, sound, fails, line⟩

theorem after (sound : AllSound store nodes) (first : FirstFailure store more error) :
    FirstFailure store (nodes ++ more) error := by
  obtain ⟨before, node, after, rfl, soundBefore, fails, line⟩ := first
  exact ⟨nodes ++ before, node, after, by simp, allSound_append.mpr ⟨sound, soundBefore⟩, fails,
    line⟩

theorem not_allSound (first : FirstFailure store nodes error) : ¬ AllSound store nodes := by
  obtain ⟨before, node, after, rfl, _, fails, _⟩ := first
  intro sound
  exact sound node (by simp) _ fails

theorem same_node {before before' after after' : List Expr} {node node' : Expr}
    {fault fault' : RuntimeFault} (same : before ++ node :: after = before' ++ node' :: after')
    (sound : AllSound store before) (sound' : AllSound store before')
    (fails : node.FailsAt store fault) (fails' : node'.FailsAt store fault') : node = node' := by
  induction before generalizing before' with
  | nil =>
      cases before' with
      | nil => exact (List.cons.inj same).1
      | cons head tail =>
          obtain ⟨rfl, _⟩ := List.cons.inj same
          exact absurd fails (sound' _ List.mem_cons_self _)
  | cons head tail ih =>
      cases before' with
      | nil =>
          obtain ⟨rfl, _⟩ := List.cons.inj same
          exact absurd fails' (sound _ List.mem_cons_self _)
      | cons head' tail' =>
          exact ih (List.cons.inj same).2 (List.forall_mem_cons.mp sound).2
            (List.forall_mem_cons.mp sound').2

theorem unique (first : FirstFailure store nodes error)
    (firstOther : FirstFailure store nodes other) : error = other := by
  obtain ⟨before, node, after, rfl, sound, fails, line⟩ := first
  obtain ⟨before', node', after', same, sound', fails', line'⟩ := firstOther
  obtain rfl := same_node same sound sound' fails fails'
  obtain ⟨fault, _⟩ := error
  obtain ⟨fault', _⟩ := other
  obtain rfl : fault = fault' := fails.unique fails'
  obtain rfl : _ = node.line := line
  obtain rfl : _ = node.line := line'
  rfl

end FirstFailure

/-- How an evaluation ends, told by the nodes that it goes through and by the exact result. -/
inductive Outcome (store : Store) (nodes : List Expr) (result : Int) :
    Except RuntimeError Value → Prop where
  | value {value : Value} :
      AllSound store nodes →
      result = value.toInt →
      Outcome store nodes result (.ok value)
  | failure {error : RuntimeError} :
      FirstFailure store nodes error →
      Outcome store nodes result (.error error)

/-- The last node decides, if nothing is wrong at the nodes before it. -/
theorem Outcome.last {nodes : List Expr} {node : Expr} (sound : AllSound store nodes)
    (defined : ∀ fault, node.FailsAt store fault → fault = .overflow) :
    Outcome store (nodes ++ [node]) (node.denote store)
      (locate node.line (Value.exact (node.denote store))) := by
  cases computed : Value.exact (node.denote store) with
  | ok value =>
      have result := Value.exact_eq_ok_iff.mp computed
      apply Outcome.value _ result
      apply allSound_append.mpr
      refine ⟨sound, allSound_singleton.mpr ?_⟩
      intro fault fails
      obtain rfl := defined fault fails
      cases fails with
      | overflow beyond =>
          rw [result] at beyond
          exact beyond value.inRange
  | error fault =>
      obtain ⟨beyond, rfl⟩ := Value.exact_eq_error_iff.mp computed
      exact .failure (.after sound ⟨[], node, [], rfl, by simp [AllSound], .overflow beyond, rfl⟩)

theorem Outcome.binary {op : BinaryOp} {left right : Expr} {line : Nat} {nodes : List Expr}
    {leftValue rightValue : Value} (sound : AllSound store nodes)
    (resultLeft : left.denote store = leftValue.toInt)
    (resultRight : right.denote store = rightValue.toInt) :
    Outcome store (nodes ++ [.binary op left right line])
      ((Expr.binary op left right line).denote store)
      (locate line (op.apply leftValue rightValue)) := by
  by_cases noQuotient : op = .div ∧ rightValue.toInt = 0
  · obtain ⟨rfl, zero⟩ := noQuotient
    rw [BinaryOp.apply_div_zero zero]
    rw [← resultRight] at zero
    exact .failure (.after sound ⟨[], _, [], rfl, by simp [AllSound], .zeroDivisor zero, rfl⟩)
  · have applied : op.apply leftValue rightValue =
        Value.exact ((Expr.binary op left right line).denote store) := by
      rw [denote, resultLeft, resultRight]
      apply BinaryOp.apply_eq_exact
      intro isQuotient zero
      exact noQuotient ⟨isQuotient, zero⟩
    rw [applied]
    apply Outcome.last sound
    intro fault fails
    cases fails with
    | zeroDivisor zero =>
        rw [resultRight] at zero
        exact absurd ⟨rfl, zero⟩ noQuotient
    | overflow => rfl

/-- Evaluation goes through the nodes in postorder. -/
theorem eval_outcome (expr : Expr) (store : Store) :
    Outcome store expr.postorder (expr.denote store) (expr.eval store) := by
  induction expr with
  | const value line =>
      refine .value ?_ rfl
      apply allSound_singleton.mpr
      intro fault fails
      cases fails with
      | overflow beyond => exact beyond value.inRange
  | var name line =>
      cases found : store.get? name with
      | none =>
          simp only [eval, found]
          exact .failure ⟨[], _, [], rfl, by simp [AllSound], .unbound found, rfl⟩
      | some value =>
          simp only [eval, found]
          refine .value ?_ (by simp [denote, found])
          apply allSound_singleton.mpr
          intro fault fails
          cases fails with
          | unbound missing => simp [found] at missing
          | overflow beyond => exact beyond (Value.inRange _)
  | unary op operand line ih =>
      simp only [eval]
      cases evaluated : operand.eval store with
      | error error =>
          rw [evaluated] at ih
          cases ih with
          | failure first => exact .failure (first.append _)
      | ok value =>
          rw [evaluated] at ih
          cases ih with
          | value sound result =>
              have applied : op.apply value =
                  Value.exact ((Expr.unary op operand line).denote store) := by
                rw [UnaryOp.apply_eq_exact, denote, result]
              show Outcome store _ _ (locate line (op.apply value))
              rw [applied]
              apply Outcome.last sound
              intro fault fails
              cases fails
              rfl
  | binary op left right line ihl ihr =>
      simp only [eval]
      cases evaluatedLeft : left.eval store with
      | error error =>
          rw [evaluatedLeft] at ihl
          cases ihl with
          | failure first =>
              rw [postorder, List.append_assoc]
              exact .failure (first.append _)
      | ok leftValue =>
          rw [evaluatedLeft] at ihl
          cases ihl with
          | value soundLeft resultLeft =>
              cases evaluatedRight : right.eval store with
              | error error =>
                  rw [evaluatedRight] at ihr
                  cases ihr with
                  | failure first => exact .failure ((first.after soundLeft).append _)
              | ok rightValue =>
                  rw [evaluatedRight] at ihr
                  cases ihr with
                  | value soundRight resultRight =>
                      have sound := allSound_append.mpr ⟨soundLeft, soundRight⟩
                      show Outcome store _ _ (locate line (op.apply leftValue rightValue))
                      exact .binary sound resultLeft resultRight

end Expr

/-- Evaluation gives the exact integer if every part of the expression has a meaning that is in
    range, and otherwise it fails as the first node in postorder does at which that is not so. -/
theorem evaluation_is_exact (store : Store) (expr : Expr) :
    (∀ value, expr.eval store = .ok value ↔
      expr.Exact store ∧ expr.denote store = value.toInt) ∧
    ∀ error, expr.eval store = .error error ↔
      Expr.FirstFailure store expr.postorder error := by
  have outcome := expr.eval_outcome store
  rw [Expr.exact_iff_allSound]
  cases evaluated : expr.eval store with
  | ok found =>
      rw [evaluated] at outcome
      cases outcome with
      | value sound result =>
          constructor
          · intro value
            rw [result, Except.ok.injEq, ← Int64.toInt_inj]
            simp [sound]
          · intro error
            constructor
            · intro impossible
              cases impossible
            · intro first
              exact absurd sound first.not_allSound
  | error found =>
      rw [evaluated] at outcome
      cases outcome with
      | failure first =>
          constructor
          · intro value
            constructor
            · intro impossible
              cases impossible
            · rintro ⟨sound, _⟩
              exact absurd sound first.not_allSound
          · intro error
            rw [Except.error.injEq]
            constructor
            · rintro rfl
              exact first
            · exact first.unique

-- The least value has no quotient by minus one, and no connective skips its second operand.
example : (Expr.binary .div (.const Value.least 1) (.unary .negate (.const 1 2) 2) 3).eval {} =
    .error { fault := .overflow, line := 3 } := rfl

example : (Expr.binary .and (.const 0 1) (.binary .div (.const 1 2) (.const 0 2) 2) 1).eval {} =
    .error { fault := .divisionByZero, line := 2 } := rfl

end TinyImp
