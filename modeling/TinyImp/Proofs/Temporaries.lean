import TinyImp.Compilation
import TinyImp.Proofs.Labels

/-! # Temporaries of lowered code

Every instruction that computes or loads writes a temporary of its own, and these are numbered in
the order in which they stand in the code. What an instruction reads has been numbered before it.
This is kept by all that can be done to a draft, so it holds of code that was put together in any
way.
-/

namespace TinyImp

namespace Instruction

/-- Where an instruction puts a value. -/
def destination? : Instruction → Option Operand
  | .load target _ | .compute _ target _ _ => some target
  | _ => none

/-- The operands from which an instruction takes values. -/
def sources : Instruction → List Operand
  | .store _ source | .print source | .jumpIfZero source _ => [source]
  | .compute _ _ left right => [left, right]
  | .declare _ | .load _ _ | .mark _ | .jump _ => []

end Instruction

/-- A constant, or one of so many temporaries. -/
def Operand.Issued (temporaries : Nat) : Operand → Prop
  | .temporary number => 0 < number ∧ number ≤ temporaries
  | .const _ => True

theorem Operand.Issued.mono {operand : Operand} {bound higher : Nat} (issued : operand.Issued bound)
    (le : bound ≤ higher) : operand.Issued higher := by
  cases operand with
  | const value => trivial
  | temporary number => exact ⟨issued.1, Nat.le_trans issued.2 le⟩

namespace Code

/-- The code takes the numbers of its destinations one after the other, the first after `first` and
    the last being `last`, and it reads only what has a number. -/
inductive Numbered : (first : Nat) → Code → (last : Nat) → Prop where
  | nil (first : Nat) : Numbered first [] first
  | writes {first last : Nat} {instruction : Instruction} {code : Code} :
      instruction.destination? = some (.temporary (first + 1)) →
      (∀ source ∈ instruction.sources, source.Issued first) →
      Numbered (first + 1) code last →
      Numbered first (instruction :: code) last
  | passes {first last : Nat} {instruction : Instruction} {code : Code} :
      instruction.destination? = none →
      (∀ source ∈ instruction.sources, source.Issued first) →
      Numbered first code last →
      Numbered first (instruction :: code) last

namespace Numbered

variable {first middle last : Nat} {code more : Code}

theorem append (left : Numbered first code middle) (right : Numbered middle more last) :
    Numbered first (code ++ more) last := by
  induction left with
  | nil => exact right
  | writes destination sources _ ih => exact .writes destination sources (ih right)
  | passes destination sources _ ih => exact .passes destination sources (ih right)

/-- An instruction that handles no values can stand anywhere. -/
theorem silent {instruction : Instruction} (noDestination : instruction.destination? = none)
    (noSources : instruction.sources = []) (numbered : Numbered first code last) :
    Numbered first (instruction :: code) last :=
  .passes noDestination (by simp [noSources]) numbered

theorem loop {test body : Code} {result : Operand} {top bottom : Label}
    (tested : Numbered first test middle) (issued : result.Issued middle)
    (inner : Numbered middle body last) :
    Numbered first (.mark top :: test ++ .jumpIfZero result bottom :: body ++
      [.jump top, .mark bottom]) last := by
  have jumps : Numbered middle (.jumpIfZero result bottom :: body) last :=
    .passes rfl (List.forall_mem_singleton.mpr issued) inner
  have ends : Numbered last [.jump top, .mark bottom] last :=
    .silent rfl rfl (.silent rfl rfl (.nil last))
  exact ((tested.silent rfl rfl).append jumps).append ends

theorem branch {test whenTrue whenFalse : Code} {result : Operand} {otherwise bottom : Label}
    {between : Nat} (tested : Numbered first test middle) (issued : result.Issued middle)
    (left : Numbered middle whenTrue between) (right : Numbered between whenFalse last) :
    Numbered first (test ++ .jumpIfZero result otherwise :: whenTrue ++
      .jump bottom :: .mark otherwise :: whenFalse ++ [.mark bottom]) last := by
  have jumps : Numbered middle (.jumpIfZero result otherwise :: whenTrue) between :=
    .passes rfl (List.forall_mem_singleton.mpr issued) left
  have meets : Numbered between (.jump bottom :: .mark otherwise :: whenFalse) last :=
    .silent rfl rfl (.silent rfl rfl right)
  exact ((tested.append jumps).append meets).append (.silent rfl rfl (.nil last))

theorem le (numbered : Numbered first code last) : first ≤ last := by
  induction numbered with
  | nil => exact Nat.le_refl _
  | writes _ _ _ ih => omega
  | passes _ _ _ ih => exact ih

/-- The destinations are consecutive temporaries. -/
theorem destinations (numbered : Numbered first code last) :
    code.filterMap Instruction.destination? =
      (List.range' (first + 1) (last - first)).map .temporary := by
  induction numbered with
  | nil => simp
  | @writes first last instruction code destination _ rest ih =>
      have enough : last - first = (last - (first + 1)) + 1 := by
        have := rest.le
        omega
      rw [List.filterMap_cons_some destination, ih, enough, List.range'_succ, List.map_cons]
  | passes destination _ _ ih => rw [List.filterMap_cons_none destination, ih]

theorem destination_count (numbered : Numbered first code last) (number : Nat) :
    (code.filterMap Instruction.destination?).count (.temporary number) =
      if first < number ∧ number ≤ last then 1 else 0 := by
  induction numbered with
  | nil => rw [List.filterMap_nil, List.count_nil, if_neg (by omega)]
  | writes destination _ rest ih =>
      have le := rest.le
      rw [List.filterMap_cons_some destination, List.count_cons, ih]
      grind
  | passes destination _ _ ih => rw [List.filterMap_cons_none destination, ih]

/-- A temporary that is read has been written before, here or in the code that comes before. -/
theorem reads (numbered : Numbered first code last) {index : Nat} {instruction : Instruction}
    {number : Nat} (here : code[index]? = some instruction)
    (isRead : .temporary number ∈ instruction.sources) :
    (0 < number ∧ number ≤ first) ∨ ∃ earlier < index, ∃ writer, code[earlier]? = some writer ∧
      writer.destination? = some (.temporary number) := by
  induction numbered generalizing index with
  | nil => simp at here
  | @writes first last head code destination sources _ ih =>
      cases index with
      | zero =>
          obtain rfl : head = instruction := by simpa using here
          exact .inl (sources _ isRead)
      | succ index =>
          rcases ih (by simpa using here) with ⟨positive, below⟩ | ⟨earlier, before, writer, found⟩
          · by_cases isNew : number = first + 1
            · subst isNew
              exact .inr ⟨0, by omega, head, rfl, destination⟩
            · exact .inl ⟨positive, by omega⟩
          · exact .inr ⟨earlier + 1, by omega, writer, by simpa using found⟩
  | @passes first last head code destination sources _ ih =>
      cases index with
      | zero =>
          obtain rfl : head = instruction := by simpa using here
          exact .inl (sources _ isRead)
      | succ index =>
          rcases ih (by simpa using here) with issued | ⟨earlier, before, writer, found⟩
          · exact .inl issued
          · exact .inr ⟨earlier + 1, by omega, writer, by simpa using found⟩

end Numbered

end Code

namespace Expr

/-- The code of a part is numbered, and its value is in an operand from which it can be read. -/
structure Lowered.Numbered (first : Nat) (part : Lowered) : Prop where
  code : Code.Numbered first part.code part.temporaries
  result : part.result.Issued part.temporaries

namespace Lowered.Numbered

variable {first : Nat} {part : Lowered} {left right : Operand}

theorem compute (numbered : part.Numbered first) (op : Opcode)
    (leftIssued : left.Issued part.temporaries) (rightIssued : right.Issued part.temporaries) :
    (part.compute op left right).Numbered first := by
  have sources : ∀ source ∈ [left, right], source.Issued part.temporaries :=
    List.forall_mem_cons.mpr ⟨leftIssued, List.forall_mem_singleton.mpr rightIssued⟩
  exact ⟨numbered.code.append (.writes rfl sources (.nil _)), Nat.succ_pos _, Nat.le_refl _⟩

theorem truth {operand : Operand} (numbered : part.Numbered first)
    (issued : operand.Issued part.temporaries) : (part.truth operand).Numbered first :=
  numbered.compute .neq issued trivial

theorem unary (numbered : part.Numbered first) (op : UnaryOp) :
    (lowerUnary part op).Numbered first := by
  cases op with
  | negate => exact numbered.compute .sub trivial numbered.result
  | not => exact numbered.compute .eq numbered.result trivial

theorem connective (numbered : part.Numbered first) (isAnd : Bool)
    (leftIssued : left.Issued part.temporaries) (rightIssued : right.Issued part.temporaries) :
    (lowerConnective part left right isAnd).Numbered first := by
  have leftTruth := numbered.truth leftIssued
  have bothTruths := leftTruth.truth (rightIssued.mono (Nat.le_succ _))
  have leftResult := leftTruth.result.mono (Nat.le_succ _)
  cases isAnd with
  | true => exact bothTruths.compute .mul leftResult bothTruths.result
  | false =>
      have sum := bothTruths.compute .add leftResult bothTruths.result
      exact sum.truth sum.result

theorem binary (numbered : part.Numbered first) (op : BinaryOp)
    (leftIssued : left.Issued part.temporaries) (rightIssued : right.Issued part.temporaries) :
    (lowerBinary part op left right).Numbered first := by
  unfold lowerBinary
  split
  · exact numbered.compute _ leftIssued rightIssued
  · exact numbered.connective _ leftIssued rightIssued

end Lowered.Numbered

theorem lower_numbered (expr : Expr) (first : Nat) : (expr.lower first).Numbered first := by
  induction expr generalizing first with
  | const value line => exact ⟨.nil first, trivial⟩
  | var name line =>
      exact ⟨.writes rfl (by simp [Instruction.sources]) (.nil _), Nat.succ_pos _, Nat.le_refl _⟩
  | unary op operand line ih => exact (ih first).unary op
  | binary op left right line ihl ihr =>
      rw [lower_binary]
      have leftPart := ihl first
      have rightPart := ihr (left.lower first).temporaries
      have both : ((left.lower first).after (right.lower (left.lower first).temporaries)).Numbered
          first := ⟨leftPart.code.append rightPart.code, rightPart.result⟩
      exact both.binary op (leftPart.result.mono rightPart.code.le) rightPart.result

end Expr

mutual

theorem Statement.lower_numbered (statement : Statement) (counters : Counters) :
    Code.Numbered counters.temporaries (statement.lower counters).1
      (statement.lower counters).2.temporaries := by
  cases statement with
  | declare names line =>
      induction names with
      | nil => exact .nil _
      | cons name names ih => exact .silent rfl rfl ih
  | assign target value line =>
      have part := value.lower_numbered counters.temporaries
      exact part.code.append (.passes rfl (List.forall_mem_singleton.mpr part.result) (.nil _))
  | print value line =>
      have part := value.lower_numbered counters.temporaries
      exact part.code.append (.passes rfl (List.forall_mem_singleton.mpr part.result) (.nil _))
  | loop condition body line =>
      have test := condition.lower_numbered counters.temporaries
      exact .loop test.code test.result (Block.lower_numbered body
        ⟨(condition.lower counters.temporaries).temporaries, counters.labels + 2⟩)
  | branch condition whenTrue whenFalse line =>
      have test := condition.lower_numbered counters.temporaries
      exact .branch test.code test.result
        (Block.lower_numbered whenTrue
          ⟨(condition.lower counters.temporaries).temporaries, counters.labels + 2⟩)
        (Block.lower_numbered whenFalse _)
termination_by sizeOf statement

theorem Block.lower_numbered (statements : List Statement) (counters : Counters) :
    Code.Numbered counters.temporaries (Block.lower statements counters).1
      (Block.lower statements counters).2.temporaries := by
  cases statements with
  | nil => exact .nil _
  | cons statement rest =>
      exact (statement.lower_numbered counters).append (Block.lower_numbered rest _)
termination_by sizeOf statements

end

namespace Draft

/-- Something that is added to a draft. -/
inductive Call where
  | expr (expr : Expr)
  | statement (statement : Statement)

def call (draft : Draft) : Call → Draft
  | .expr expr => (draft.expr expr).1
  | .statement statement => draft.statement statement

/-- Add several things in order. -/
def calls (draft : Draft) (history : List Call) : Draft :=
  history.foldl call draft

/-- The counters of a draft tell the numbers used in its code. -/
structure Counted (draft : Draft) : Prop where
  numbered : Code.Numbered 0 draft.code draft.counters.temporaries
  labelled : draft.code.Labelled 0 draft.counters.labels

namespace Counted

variable {draft : Draft}

theorem empty : Counted {} :=
  ⟨.nil 0, .plain (by simp) (by simp) 0⟩

theorem call (counted : draft.Counted) (call : Call) : (draft.call call).Counted := by
  cases call with
  | expr expr =>
      exact ⟨counted.numbered.append (expr.lower_numbered _).code,
        counted.labelled.append (expr.lower_labelled _ _)⟩
  | statement statement =>
      exact ⟨counted.numbered.append (statement.lower_numbered _),
        counted.labelled.append (statement.lower_labelled _)⟩

theorem calls (counted : draft.Counted) (history : List Call) : (draft.calls history).Counted := by
  induction history generalizing draft with
  | nil => exact counted
  | cons first others ih => exact ih (counted.call first)

theorem program (counted : draft.Counted) (program : Program) : (draft.program program).Counted :=
  ⟨counted.numbered.append (Block.lower_numbered program _),
    counted.labelled.append (Block.lower_labelled program _)⟩

end Counted

end Draft

/-- What holds of code with so many temporaries and labels, whatever it does. -/
structure Code.WellFormed (code : Code) (temporaries labels : Nat) : Prop where
  /-- The destinations are the temporaries in order. -/
  destinations : code.filterMap Instruction.destination? =
    (List.range' 1 temporaries).map .temporary
  writtenOnce : ∀ number, (code.filterMap Instruction.destination?).count (.temporary number) =
    if 0 < number ∧ number ≤ temporaries then 1 else 0
  readAfterWritten : ∀ (index : Nat) (instruction : Instruction) (number : Nat),
    code[index]? = some instruction → .temporary number ∈ instruction.sources →
    ∃ earlier < index, ∃ writer, code[earlier]? = some writer ∧
      writer.destination? = some (.temporary number)
  /-- Each label is defined once, and no other is. -/
  definedOnce : ∀ label : Nat, (code.filterMap Instruction.marked?).count label =
    if 0 < label ∧ label ≤ labels then 1 else 0
  /-- There is one jump to each label, and to no other. -/
  targetOnce : ∀ label : Nat, (code.filterMap Instruction.jumpTarget?).count label =
    if 0 < label ∧ label ≤ labels then 1 else 0

theorem Draft.Counted.wellFormed {draft : Draft} (counted : draft.Counted) :
    draft.code.WellFormed draft.counters.temporaries draft.counters.labels where
  destinations := by simpa using counted.numbered.destinations
  writtenOnce := counted.numbered.destination_count
  readAfterWritten := by
    intro index instruction number here isRead
    rcases counted.numbered.reads here isRead with issued | written
    · omega
    · exact written
  definedOnce := counted.labelled.marks
  targetOnce := counted.labelled.jumps

/-- The note on a draft tells how many destinations and how many labels stand in its code. -/
theorem Draft.Counted.note_eq {draft : Draft} (counted : draft.Counted) :
    draft.note = .lowered draft.code.length
      (draft.code.filterMap Instruction.destination?).length
      (draft.code.filterMap Instruction.marked?).length := by
  have temporaries : (draft.code.filterMap Instruction.destination?).length =
      draft.counters.temporaries := by
    rw [counted.wellFormed.destinations]
    simp
  have labels : (draft.code.filterMap Instruction.marked?).length = draft.counters.labels := by
    have sameLabels : (draft.code.filterMap Instruction.marked?).Perm
        (List.range' 1 draft.counters.labels) := by
      rw [List.perm_iff_count]
      intro (label : Nat)
      rw [counted.labelled.marks, (List.nodup_range' 1).count]
      have bounds : 0 < label ∧ label ≤ draft.counters.labels ↔
          label ∈ List.range' 1 draft.counters.labels := by
        rw [List.mem_range'_1]
        omega
      simp only [bounds]
    simpa using sameLabels.length_eq
  rw [Draft.note, temporaries, labels]

/-- The code of a draft is well formed, whatever was added to it before a program. The counters say
    how many temporaries and labels there are, and the note on the draft tells the same numbers. -/
theorem drafted_code_is_well_formed (history : List Draft.Call) (program : Program) :
    let draft := (Draft.calls {} history).program program
    draft.code.WellFormed draft.counters.temporaries draft.counters.labels ∧
    draft.note = .lowered draft.code.length
      (draft.code.filterMap Instruction.destination?).length
      (draft.code.filterMap Instruction.marked?).length := by
  intro draft
  have counted : draft.Counted := (Draft.Counted.empty.calls history).program program
  exact ⟨counted.wellFormed, counted.note_eq⟩

end TinyImp
