import TinyImp.Code.Instruction
import TinyImp.Proofs.Texts

/-! # The text of code determines the code

Each line of rendered code begins with a word that tells the form of the instruction, and behind it
stand its arguments with commas between them. Only names can be confused with anything, since they may
be any text. But in each form there is at most one name, it stands first or last, and operands and
labels hold no comma: so the name of a load begins behind the first comma and that of a store ends
before the last one. A name must not hold a line feed, or else it would look like several lines.
-/

namespace TinyImp

theorem eq_of_numbered_eq {mark : String} {left right : Nat}
    (same : mark ++ toString left = mark ++ toString right) : left = right := by
  have characters := congrArg String.toList same
  rw [String.toList_append, String.toList_append] at characters
  exact Nat.repr_inj.mp (String.toList_injective (List.append_cancel_left characters))

theorem isDigit_of_mem_toString {n : Nat} {c : Char} (isMember : c ∈ (toString n).toList) :
    c.isDigit := by
  rw [Nat.toString_eq_repr, Nat.toList_repr] at isMember
  exact Decimal.areDigits_toDigits n c isMember

theorem Label.notMem_render {label : Label} {c : Char} (noDigit : c.isDigit = false)
    (noMark : c ≠ 'L') : c ∉ label.render.toList := by
  intro isMember
  simp only [Label.render, String.toList_append, List.mem_append] at isMember
  rcases isMember with isMark | inNumber
  · exact noMark (List.mem_singleton.mp isMark)
  · rw [isDigit_of_mem_toString inNumber] at noDigit
    cases noDigit

namespace Operand

theorem notMem_render {operand : Operand} {c : Char} (noDigit : c.isDigit = false)
    (noSign : c ≠ '-') (noMark : c ≠ 't') : c ∉ operand.render.toList := by
  cases operand with
  | temporary number =>
      intro isMember
      simp only [render, String.toList_append, List.mem_append] at isMember
      rcases isMember with isMark | inNumber
      · exact noMark (List.mem_singleton.mp isMark)
      · rw [isDigit_of_mem_toString inNumber] at noDigit
        cases noDigit
  | const value => exact Value.notMem_text noDigit noSign

theorem no_comma (operand : Operand) : ',' ∉ operand.render.toList :=
  notMem_render (by decide) (by decide) (by decide)

/-- No numeral begins like a temporary. -/
theorem render_temporary_ne_text (number : Nat) (value : Value) :
    (temporary number).render ≠ value.text := by
  intro same
  have isMember : 't' ∈ value.text.toList := by
    rw [← same]
    simp [render]
  exact Value.notMem_text (by decide) (by decide) isMember

theorem render_injective {left right : Operand} (same : left.render = right.render) :
    left = right := by
  cases left with
  | temporary number =>
      cases right with
      | temporary number' => rw [eq_of_numbered_eq same]
      | const value => exact absurd same (render_temporary_ne_text number value)
  | const value =>
      cases right with
      | temporary number => exact absurd same.symm (render_temporary_ne_text number value)
      | const value' => rw [Value.text_injective same]

end Operand

namespace Instruction

/-- The forms of instructions. -/
inductive Form where
  | declare
  | load
  | store
  | compute (op : Opcode)
  | print
  | mark
  | jump
  | jumpIfZero
  deriving DecidableEq

namespace Form

/-- The word with which every instruction of a form begins. -/
def word : Form → String
  | .declare => "DECLARE"
  | .load => "LOAD"
  | .store => "STORE"
  | .compute op => op.mnemonic
  | .print => "PRINT"
  | .mark => "LABEL"
  | .jump => "JMP"
  | .jumpIfZero => "JZ"

def all : List Form :=
  [.declare, .load, .store, .print, .mark, .jump, .jumpIfZero] ++ Opcode.all.map .compute

theorem mem_all (form : Form) : form ∈ all := by
  cases form with
  | compute op => cases op <;> decide
  | _ => decide

theorem word_injective {left right : Form} (same : left.word = right.word) : left = right := by
  have distinct : ∀ left ∈ all, ∀ right ∈ all, left.word = right.word → left = right := by
    decide
  exact distinct left left.mem_all right right.mem_all same

theorem no_break (form : Form) : ' ' ∉ form.word.toList ∧ '\n' ∉ form.word.toList := by
  have unbroken : ∀ form ∈ all, ' ' ∉ form.word.toList ∧ '\n' ∉ form.word.toList := by
    decide
  exact unbroken form form.mem_all

end Form

def form : Instruction → Form
  | .declare _ => .declare
  | .load _ _ => .load
  | .store _ _ => .store
  | .compute op _ _ _ => .compute op
  | .print _ => .print
  | .mark _ => .mark
  | .jump _ => .jump
  | .jumpIfZero _ _ => .jumpIfZero

/-- What stands behind the first word of an instruction. -/
def arguments : Instruction → List Char
  | .declare name => name.toList
  | .load target name => target.render.toList ++ ',' :: ' ' :: name.toList
  | .store name source => name.toList ++ ',' :: ' ' :: source.render.toList
  | .compute _ target left right =>
      target.render.toList ++ ',' :: ' ' :: (left.render.toList ++ ',' :: ' ' :: right.render.toList)
  | .print source => source.render.toList
  | .mark label | .jump label => label.render.toList
  | .jumpIfZero source label => source.render.toList ++ ',' :: ' ' :: label.render.toList

theorem toList_render (instruction : Instruction) :
    instruction.render.toList = instruction.form.word.toList ++ ' ' :: instruction.arguments := by
  cases instruction <;> simp [render, form, Form.word, arguments]

/-- The name of a variable in an instruction. -/
def name? : Instruction → Option String
  | .declare name | .load _ name | .store name _ => some name
  | .compute _ _ _ _ | .print _ | .mark _ | .jump _ | .jumpIfZero _ _ => none

/-- An operand in front of a comma, with anything behind it. -/
theorem cut_operand {left right : Operand} {rest rest' : List Char}
    (same : left.render.toList ++ ',' :: ' ' :: rest = right.render.toList ++ ',' :: ' ' :: rest') :
    left = right ∧ rest = rest' := by
  obtain ⟨sameOperand, sameRest⟩ := cut_at_first left.no_comma right.no_comma same
  exact ⟨Operand.render_injective (String.toList_injective sameOperand),
    List.tail_eq_of_cons_eq sameRest⟩

theorem eq_of_arguments {left right : Instruction} (sameForm : left.form = right.form)
    (same : left.arguments = right.arguments) : left = right := by
  have behindComma (operand : Operand) : ',' ∉ ' ' :: operand.render.toList := by
    simp [operand.no_comma]
  cases left with
  | declare name =>
      cases right with
      | declare name' => rw [String.toList_injective same]
      | _ => cases sameForm
  | load target name =>
      cases right with
      | load target' name' =>
          obtain ⟨sameTarget, sameName⟩ := cut_operand same
          rw [sameTarget, String.toList_injective sameName]
      | _ => cases sameForm
  | store name source =>
      cases right with
      | store name' source' =>
          obtain ⟨sameName, sameSource⟩ := cut_at_last (behindComma source) (behindComma source') same
          have sameText := String.toList_injective (List.tail_eq_of_cons_eq sameSource)
          rw [String.toList_injective sameName, Operand.render_injective sameText]
      | _ => cases sameForm
  | compute op target first second =>
      cases right with
      | compute op' target' first' second' =>
          cases sameForm
          obtain ⟨sameTarget, sameOperands⟩ := cut_operand same
          obtain ⟨sameFirst, sameSecond⟩ := cut_operand sameOperands
          rw [sameTarget, sameFirst, Operand.render_injective (String.toList_injective sameSecond)]
      | _ => cases sameForm
  | print source =>
      cases right with
      | print source' => rw [Operand.render_injective (String.toList_injective same)]
      | _ => cases sameForm
  | mark label =>
      cases right with
      | mark label' => rw [eq_of_numbered_eq (String.toList_injective same)]
      | _ => cases sameForm
  | jump label =>
      cases right with
      | jump label' => rw [eq_of_numbered_eq (String.toList_injective same)]
      | _ => cases sameForm
  | jumpIfZero source label =>
      cases right with
      | jumpIfZero source' label' =>
          obtain ⟨sameSource, sameLabel⟩ := cut_operand same
          rw [sameSource, eq_of_numbered_eq (String.toList_injective sameLabel)]
      | _ => cases sameForm

/-- One line determines the instruction, whatever characters its name has. -/
theorem render_injective {left right : Instruction} (same : left.render = right.render) :
    left = right := by
  have characters := congrArg String.toList same
  rw [toList_render, toList_render] at characters
  obtain ⟨sameWord, sameArguments⟩ :=
    cut_at_first left.form.no_break.1 right.form.no_break.1 characters
  exact eq_of_arguments (Form.word_injective (String.toList_injective sameWord)) sameArguments

theorem no_feed_of_name {instruction : Instruction}
    (unbroken : ∀ name ∈ instruction.name?, '\n' ∉ name.toList) :
    '\n' ∉ instruction.render.toList := by
  have operands (operand : Operand) : '\n' ∉ operand.render.toList :=
    Operand.notMem_render (by decide) (by decide) (by decide)
  have labels (label : Label) : '\n' ∉ label.render.toList :=
    Label.notMem_render (by decide) (by decide)
  have noFeed : '\n' ∉ instruction.arguments := by
    cases instruction <;> simp_all [arguments, name?]
  simp [toList_render, instruction.form.no_break.2, noFeed]

end Instruction

/-- No name of a variable holds a line feed. -/
def Code.NamesUnbroken (code : Code) : Prop :=
  ∀ instruction ∈ code, ∀ name ∈ instruction.name?, '\n' ∉ name.toList

theorem Code.NamesUnbroken.lines {code : Code} (unbroken : code.NamesUnbroken) :
    ∀ line ∈ code.map Instruction.render, '\n' ∉ line.toList := by
  intro line isLine
  obtain ⟨instruction, isMember, rfl⟩ := List.mem_map.mp isLine
  exact Instruction.no_feed_of_name (unbroken instruction isMember)

/-- If no name of a variable holds a line feed, different codes have different texts. -/
theorem rendered_code_determines_code {left right : Code} (unbroken : left.NamesUnbroken)
    (unbroken' : right.NamesUnbroken) : left.render = right.render ↔ left = right := by
  constructor
  · intro same
    have sameLines := unlines_injective unbroken.lines unbroken'.lines same
    exact List.map_injective_iff.mpr (fun _ _ => Instruction.render_injective) sameLines
  · intro same
    rw [same]

/-- In the text of the first code the store holds two commas, the load ends with a blank and the
    declaration looks like a load. -/
theorem names_like_operands_are_told_apart :
    let code : Code :=
      [.store "x, t1" (.const (-5)), .load (.temporary 2) "", .declare "LOAD t2, y"]
    let other : Code :=
      [.store "x" (.const (-5)), .load (.temporary 2) "", .load (.temporary 2) "y"]
    code.render = "STORE x, t1, -5\nLOAD t2, \nDECLARE LOAD t2, y\n" ∧
      code.NamesUnbroken ∧ other.NamesUnbroken ∧ code.render ≠ other.render := by
  intro code other
  have unbroken : code.NamesUnbroken := by
    simp [code, Code.NamesUnbroken, Instruction.name?]
  have unbroken' : other.NamesUnbroken := by
    simp [other, Code.NamesUnbroken, Instruction.name?]
  refine ⟨rfl, unbroken, unbroken', ?_⟩
  intro same
  have sameCode := (rendered_code_determines_code unbroken unbroken').mp same
  simp [code, other] at sameCode

-- With a line feed in its name one declaration has the text of two.
example : Code.render [.declare "x\nDECLARE y"] = Code.render [.declare "x", .declare "y"] := by
  decide

end TinyImp
