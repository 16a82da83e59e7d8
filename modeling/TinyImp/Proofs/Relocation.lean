import TinyImp.Proofs.ExprLowering

/-! # Lowered code can be moved

The numbers in the code of a part are counted from those used before it, and nothing else of what
comes before matters. So the code of a part is the same everywhere, but for a shift of its temporaries
and labels. Lowering goes through the shift from any counters, not only from none, since the parts of
a construct are lowered one after the other.
-/

namespace TinyImp

/-- The operand in code that is moved behind so many temporaries. -/
def Operand.shift (distance : Nat) : Operand → Operand
  | .temporary number => .temporary (distance + number)
  | .const value => .const value

/-- The instruction in code that is moved behind so many temporaries and labels. -/
def Instruction.shift (distance : Counters) : Instruction → Instruction
  | .declare name => .declare name
  | .load target name => .load (target.shift distance.temporaries) name
  | .store name source => .store name (source.shift distance.temporaries)
  | .compute op target left right =>
      .compute op (target.shift distance.temporaries) (left.shift distance.temporaries)
        (right.shift distance.temporaries)
  | .print source => .print (source.shift distance.temporaries)
  | .mark label => .mark (distance.labels + label)
  | .jump label => .jump (distance.labels + label)
  | .jumpIfZero source label =>
      .jumpIfZero (source.shift distance.temporaries) (distance.labels + label)

namespace Code

def shift (distance : Counters) (code : Code) : Code :=
  code.map (Instruction.shift distance)

@[simp]
theorem shift_cons (distance : Counters) (instruction : Instruction) (code : Code) :
    shift distance (instruction :: code) = instruction.shift distance :: code.shift distance := rfl

@[simp]
theorem shift_append (distance : Counters) (code more : Code) :
    shift distance (code ++ more) = code.shift distance ++ more.shift distance :=
  List.map_append

end Code

/-- The counters after two parts, each of which has its own. -/
instance : Add Counters where
  add first second :=
    { temporaries := first.temporaries + second.temporaries
      labels := first.labels + second.labels }

@[simp]
theorem Counters.add_temporaries (first second : Counters) :
    (first + second).temporaries = first.temporaries + second.temporaries := rfl

@[simp]
theorem Counters.add_labels (first second : Counters) :
    (first + second).labels = first.labels + second.labels := rfl

namespace Expr

namespace Lowered

/-- The code of an expression that is moved, with its result. -/
def shift (distance : Counters) (part : Lowered) : Lowered where
  code := part.code.shift distance
  result := part.result.shift distance.temporaries
  temporaries := distance.temporaries + part.temporaries

variable (distance : Counters) (part : Lowered)

/-- The blocks that follow a condition begin where it has ended, moved by the same distance. -/
theorem shift_counters (labels : Nat) :
    { temporaries := (part.shift distance).temporaries, labels := distance.labels + labels } =
      distance + { temporaries := part.temporaries, labels } := rfl

theorem shift_compute (op : Opcode) (left right : Operand) :
    (part.compute op left right).shift distance =
      (part.shift distance).compute op (left.shift distance.temporaries)
        (right.shift distance.temporaries) := by
  simp only [shift, compute, Code.shift_append]
  rfl

theorem shift_truth (operand : Operand) :
    (part.truth operand).shift distance =
      (part.shift distance).truth (operand.shift distance.temporaries) :=
  part.shift_compute distance .neq operand (.const 0)

theorem shift_unary (op : UnaryOp) :
    (lowerUnary part op).shift distance = lowerUnary (part.shift distance) op := by
  cases op with
  | negate => exact part.shift_compute distance .sub (.const 0) part.result
  | not => exact part.shift_compute distance .eq part.result (.const 0)

theorem shift_connective (left right : Operand) (isAnd : Bool) :
    (lowerConnective part left right isAnd).shift distance =
      lowerConnective (part.shift distance) (left.shift distance.temporaries)
        (right.shift distance.temporaries) isAnd := by
  cases isAnd with
  | true =>
      simp only [lowerConnective, if_true, shift_compute, shift_truth]
      rfl
  | false =>
      simp only [lowerConnective, Bool.false_eq_true, if_false, shift_compute, shift_truth]
      rfl

theorem shift_binary (op : BinaryOp) (left right : Operand) :
    (lowerBinary part op left right).shift distance =
      lowerBinary (part.shift distance) op (left.shift distance.temporaries)
        (right.shift distance.temporaries) := by
  unfold lowerBinary
  split
  · exact part.shift_compute distance _ left right
  · exact part.shift_connective distance left right _

theorem shift_after (second : Lowered) :
    (part.after second).shift distance = (part.shift distance).after (second.shift distance) := by
  simp only [shift, after, Code.shift_append]

end Lowered

theorem lower_shift (expr : Expr) (distance : Counters) (temporaries : Nat) :
    expr.lower (distance.temporaries + temporaries) = (expr.lower temporaries).shift distance := by
  induction expr generalizing temporaries with
  | const value line => rfl
  | var name line => rfl
  | unary op operand line ih =>
      rw [lower, lower, ih, Lowered.shift_unary]
  | binary op left right line ihl ihr =>
      -- The right operand begins where the left one, moved by the same distance, has ended.
      have leftPart := ihl temporaries
      have rightPart : right.lower ((left.lower temporaries).shift distance).temporaries =
          (right.lower (left.lower temporaries).temporaries).shift distance := ihr _
      rw [lower_binary, lower_binary, leftPart, rightPart, Lowered.shift_binary, Lowered.shift_after]
      rfl

end Expr

mutual

theorem Statement.lower_shift (statement : Statement) (distance counters : Counters) :
    statement.lower (distance + counters) =
      ((statement.lower counters).1.shift distance, distance + (statement.lower counters).2) := by
  cases statement with
  | declare names line =>
      have moved : (names.map Instruction.declare).map (Instruction.shift distance) =
          names.map .declare := List.map_map
      exact Prod.ext moved.symm rfl
  | assign target value line | print value line =>
      have part := value.lower_shift distance counters.temporaries
      simp only [Statement.lower, Counters.add_temporaries, part, Code.shift_append]
      rfl
  | loop condition body line =>
      simp only [Statement.lower, Counters.add_temporaries, Counters.add_labels, Nat.add_assoc,
        condition.lower_shift distance, Expr.Lowered.shift_counters, Block.lower_shift body distance,
        Code.shift_append, Code.shift_cons]
      rfl
  | branch condition whenTrue whenFalse line =>
      simp only [Statement.lower, Counters.add_temporaries, Counters.add_labels, Nat.add_assoc,
        condition.lower_shift distance, Expr.Lowered.shift_counters,
        Block.lower_shift whenTrue distance, Block.lower_shift whenFalse distance,
        Code.shift_append, Code.shift_cons]
      rfl
termination_by sizeOf statement

theorem Block.lower_shift (statements : List Statement) (distance counters : Counters) :
    Block.lower statements (distance + counters) =
      ((Block.lower statements counters).1.shift distance,
        distance + (Block.lower statements counters).2) := by
  cases statements with
  | nil => rfl
  | cons statement rest =>
      simp only [Block.lower, statement.lower_shift distance counters,
        Block.lower_shift rest distance, Code.shift_append]
termination_by sizeOf statements

end

/-- Whatever a draft holds, a statement or an expression adds to it the code that it has in an empty
    draft, with the temporaries and labels moved behind those of the draft. The counters grow by
    what they count in the empty draft, and the result of an expression is moved in the same way. -/
theorem lowering_is_relocatable (draft : Draft) :
    (∀ statement : Statement, draft.statement statement =
      { code := draft.code ++ (Draft.statement {} statement).code.shift draft.counters
        counters := draft.counters + (Draft.statement {} statement).counters }) ∧
    ∀ expr : Expr, draft.expr expr =
      ({ code := draft.code ++ (Draft.expr {} expr).1.code.shift draft.counters
         counters := draft.counters + (Draft.expr {} expr).1.counters },
        (Draft.expr {} expr).2.shift draft.counters.temporaries) := by
  constructor
  · intro statement
    have moved : statement.lower draft.counters = _ := statement.lower_shift draft.counters {}
    simp only [Draft.statement, moved, List.nil_append]
  · intro expr
    have moved : expr.lower draft.counters.temporaries = _ := expr.lower_shift draft.counters 0
    simp only [Draft.expr, moved, List.nil_append]
    rfl

end TinyImp
