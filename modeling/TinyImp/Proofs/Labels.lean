import TinyImp.Proofs.ExprLowering

/-! # Labels of lowered code

Lowering defines each of its labels once and makes one jump to each. So every jump leads to a place
of its own, and linking succeeds.
-/

namespace TinyImp

/-- The label that an instruction defines. -/
def Instruction.marked? : Instruction → Option Label
  | .mark label => some label
  | _ => none

namespace Code

/-- The labels above `first` and up to `last` are each defined once and jumped to once, and no other
    label occurs. -/
structure Labelled (code : Code) (first last : Nat) : Prop where
  le : first ≤ last
  marks : ∀ label : Nat, (code.filterMap Instruction.marked?).count label =
    if first < label ∧ label ≤ last then 1 else 0
  jumps : ∀ label : Nat, (code.filterMap Instruction.jumpTarget?).count label =
    if first < label ∧ label ≤ last then 1 else 0

namespace Labelled

variable {code more : Code} {first middle last : Nat}

theorem plain (unmarked : ∀ instruction ∈ code, instruction.marked? = none)
    (straight : ∀ instruction ∈ code, instruction.jumpTarget? = none) (first : Nat) :
    code.Labelled first first := by
  have noMarks : code.filterMap Instruction.marked? = [] := List.filterMap_eq_nil_iff.mpr unmarked
  have noJumps : code.filterMap Instruction.jumpTarget? = [] := List.filterMap_eq_nil_iff.mpr straight
  refine ⟨Nat.le_refl first, ?_, ?_⟩
  · intro label
    rw [noMarks, if_neg (by omega), List.count_nil]
  · intro label
    rw [noJumps, if_neg (by omega), List.count_nil]

theorem append (left : code.Labelled first middle) (right : more.Labelled middle last) :
    Labelled (code ++ more) first last := by
  have le := left.le
  have le' := right.le
  refine ⟨Nat.le_trans le le', ?_, ?_⟩
  · intro label
    rw [List.filterMap_append, List.count_append, left.marks, right.marks]
    grind
  · intro label
    rw [List.filterMap_append, List.count_append, left.jumps, right.jumps]
    grind

theorem loop {test body : Code} {result : Operand} (plain : test.Labelled first first)
    (inner : body.Labelled (first + 2) last) :
    Labelled (.mark (first + 1) :: test ++ .jumpIfZero result (first + 2) :: body ++
      [.jump (first + 1), .mark (first + 2)]) first last := by
  have le := inner.le
  refine ⟨by omega, ?_, ?_⟩
  · intro label
    simp only [List.filterMap_append, List.filterMap_cons, Instruction.marked?, List.filterMap_nil,
      List.count_append, List.count_cons, List.count_nil, plain.marks, inner.marks, List.cons_append]
    grind
  · intro label
    simp only [List.filterMap_append, List.filterMap_cons, Instruction.jumpTarget?,
      List.filterMap_nil, List.count_append, List.count_cons, List.count_nil, plain.jumps,
      inner.jumps, List.cons_append]
    grind

theorem branch {test whenTrue whenFalse : Code} {result : Operand} (plain : test.Labelled first first)
    (left : whenTrue.Labelled (first + 2) middle) (right : whenFalse.Labelled middle last) :
    Labelled (test ++ .jumpIfZero result (first + 1) :: whenTrue ++
      .jump (first + 2) :: .mark (first + 1) :: whenFalse ++ [.mark (first + 2)]) first last := by
  have le := left.le
  have le' := right.le
  refine ⟨by omega, ?_, ?_⟩
  · intro label
    simp only [List.filterMap_append, List.filterMap_cons, Instruction.marked?, List.filterMap_nil,
      List.count_append, List.count_cons, List.count_nil, plain.marks, left.marks, right.marks]
    grind
  · intro label
    simp only [List.filterMap_append, List.filterMap_cons, Instruction.jumpTarget?,
      List.filterMap_nil, List.count_append, List.count_cons, List.count_nil, plain.jumps,
      left.jumps, right.jumps]
    grind

end Labelled

end Code

/-- Neither a label nor a jump nor a declaration. -/
structure Instruction.IsPlain (instruction : Instruction) : Prop where
  unmarked : instruction.marked? = none
  straight : instruction.jumpTarget? = none
  undeclaring : instruction.declared? = none

theorem Expr.lower_plain (expr : Expr) (bound : Nat) :
    ∀ instruction ∈ (expr.lower bound).code, instruction.IsPlain := by
  have closed (part : Lowered) (op : Opcode) (left right : Operand)
      (plain : ∀ instruction ∈ part.code, instruction.IsPlain) :
      ∀ instruction ∈ (part.compute op left right).code, instruction.IsPlain := by
    intro instruction member
    rcases List.mem_append.mp member with member | member
    · exact plain instruction member
    · obtain rfl := List.mem_singleton.mp member
      exact ⟨rfl, rfl, rfl⟩
  induction expr generalizing bound with
  | const value line => simp [lower]
  | var name line =>
      intro instruction member
      obtain rfl := List.mem_singleton.mp member
      exact ⟨rfl, rfl, rfl⟩
  | unary op operand line ih => exact lowerUnary_closed closed op (ih bound)
  | binary op left right line ihl ihr =>
      rw [lower_binary]
      refine lowerBinary_closed closed op _ _ ?_
      intro instruction member
      rcases List.mem_append.mp member with member | member
      · exact ihl bound instruction member
      · exact ihr _ instruction member

theorem Expr.lower_labelled (expr : Expr) (bound first : Nat) :
    (expr.lower bound).code.Labelled first first :=
  .plain (fun instruction member => (expr.lower_plain bound instruction member).unmarked)
    (fun instruction member => (expr.lower_plain bound instruction member).straight) first

mutual

theorem Statement.lower_labelled (statement : Statement) (counters : Counters) :
    (statement.lower counters).1.Labelled counters.labels (statement.lower counters).2.labels := by
  cases statement with
  | declare names line =>
      apply Code.Labelled.plain
      · intro instruction member
        obtain ⟨name, -, rfl⟩ := List.mem_map.mp member
        rfl
      · intro instruction member
        obtain ⟨name, -, rfl⟩ := List.mem_map.mp member
        rfl
  | assign target value line =>
      simp only [Statement.lower]
      refine (value.lower_labelled counters.temporaries counters.labels).append (.plain ?_ ?_ _)
      · simp [Instruction.marked?]
      · simp [Instruction.jumpTarget?]
  | print value line =>
      simp only [Statement.lower]
      refine (value.lower_labelled counters.temporaries counters.labels).append (.plain ?_ ?_ _)
      · simp [Instruction.marked?]
      · simp [Instruction.jumpTarget?]
  | loop condition body line =>
      exact .loop (condition.lower_labelled counters.temporaries counters.labels)
        (Block.lower_labelled body _)
  | branch condition whenTrue whenFalse line =>
      exact .branch (condition.lower_labelled counters.temporaries counters.labels)
        (Block.lower_labelled whenTrue _) (Block.lower_labelled whenFalse _)
termination_by sizeOf statement

theorem Block.lower_labelled (statements : List Statement) (counters : Counters) :
    (Block.lower statements counters).1.Labelled counters.labels
      (Block.lower statements counters).2.labels := by
  cases statements with
  | nil => exact .plain (by simp [Block.lower]) (by simp [Block.lower]) _
  | cons statement rest =>
      exact (statement.lower_labelled counters).append (Block.lower_labelled rest _)
termination_by sizeOf statements

end

namespace Code

theorem targets_snoc (code : Code) (instruction : Instruction) :
    targets (code ++ [instruction]) =
      match instruction with
      | .mark label => code.targets.insert label (code.length + 1)
      | _ => code.targets := by
  cases instruction <;> simp [targets, List.zipIdx_append, List.foldl_append]

/-- Code that does not define a label leaves its place as it is. -/
theorem targets_append {code more : Code} {label : Label}
    (absent : label ∉ more.filterMap Instruction.marked?) :
    (targets (code ++ more))[label]? = code.targets[label]? := by
  induction more generalizing code with
  | nil => simp
  | cons instruction more ih =>
      rw [List.append_cons, ih, targets_snoc]
      · cases instruction with
        | mark other =>
            have different : other ≠ label := by
              rintro rfl
              simp [Instruction.marked?] at absent
            simp [Std.ExtTreeMap.getElem?_insert, different]
        | _ => rfl
      · intro member
        apply absent
        rw [List.filterMap_cons]
        split
        · exact member
        · exact List.mem_cons_of_mem _ member

variable {code : Code} {first last : Nat}

/-- A label that is defined once leads to the place after its definition. -/
theorem Labelled.target (labelled : code.Labelled first last) {index : Nat} {label : Label}
    (here : code[index]? = some (.mark label)) : code.targets[label]? = some (index + 1) := by
  obtain ⟨inside, found⟩ := List.getElem?_eq_some_iff.mp here
  have split : code = code.take index ++ .mark label :: code.drop (index + 1) := by
    rw [← found, List.getElem_cons_drop, List.take_append_drop]
  have once := labelled.marks label
  rw [split, List.filterMap_append, List.filterMap_cons, Instruction.marked?, List.count_append,
    List.count_cons_self] at once
  have absent : label ∉ (code.drop (index + 1)).filterMap Instruction.marked? := by
    apply List.count_eq_zero.mp
    split at once <;> omega
  rw [split, List.append_cons, targets_append absent, targets_snoc]
  simp [Nat.min_eq_left (Nat.le_of_lt inside)]

theorem Labelled.target_of_jump (labelled : code.Labelled first last) {instruction : Instruction}
    {label : Label} (member : instruction ∈ code) (jumps : instruction.jumpTarget? = some label) :
    ∃ index, code.targets[label]? = some index := by
  have jumped : label ∈ code.filterMap Instruction.jumpTarget? :=
    List.mem_filterMap.mpr ⟨instruction, member, jumps⟩
  have marked : label ∈ code.filterMap Instruction.marked? := by
    rw [← List.count_pos_iff] at jumped ⊢
    rwa [labelled.marks, ← labelled.jumps]
  obtain ⟨definition, member', defines⟩ := List.mem_filterMap.mp marked
  obtain ⟨index, here⟩ := List.mem_iff_getElem?.mp member'
  cases definition with
  | mark other =>
      obtain rfl : other = label := by simpa [Instruction.marked?] using defines
      exact ⟨index + 1, labelled.target here⟩
  | _ => simp [Instruction.marked?] at defines

theorem Labelled.linked (labelled : code.Labelled first last) : code.undefinedJump? = none := by
  rw [undefinedJump?, List.findSome?_eq_none_iff]
  rintro ⟨instruction, index⟩ member
  have here := List.mem_zipIdx_iff_getElem?.mp member
  cases jumps : instruction.jumpTarget? with
  | none => simp [jumps]
  | some label =>
      obtain ⟨there, found⟩ := labelled.target_of_jump (List.mem_of_getElem? here) jumps
      have known : code.targets.contains label := by
        rw [Std.ExtTreeMap.contains_eq_isSome_getElem?, found]
        rfl
      simp [jumps, known]

end Code

theorem Program.lower_labelled (program : Program) :
    program.lower.code.Labelled 0 program.lower.counters.labels :=
  Block.lower_labelled program {}

end TinyImp
