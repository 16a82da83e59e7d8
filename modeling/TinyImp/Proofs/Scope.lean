import TinyImp.Proofs.Lowering
import TinyImp.Proofs.Results
import TinyImp.Scope.Check

/-! # What the scope check establishes

The check goes through a program once, in reading order, and its table only grows. So when it
succeeds the table holds every name that is used anywhere, and it lists the declared names.
-/

namespace TinyImp

namespace SymbolTable

/-- Index and list are inverse to each other. -/
def Valid (table : SymbolTable) : Prop :=
  ∀ (name : String) (position : Nat),
    table.index[name]? = some position ↔ table.names[position]? = some name

theorem valid_empty : Valid {} := by
  intro name position
  simp

theorem Valid.contains_iff {table : SymbolTable} (valid : table.Valid) (name : String) :
    table.contains name ↔ name ∈ table.toList := by
  rw [contains, Std.ExtTreeMap.contains_eq_isSome_getElem?, Option.isSome_iff_exists, toList,
    List.mem_iff_getElem?]
  simp only [valid name, Array.getElem?_toList]

theorem declare_of_contains {table : SymbolTable} {name : String} (contained : table.contains name) :
    table.declare name = (false, table) := by
  simp [declare, contained]

theorem declare_of_not_contains {table : SymbolTable} {name : String}
    (absent : ¬ table.contains name) : ∃ after, table.declare name = (true, after) := by
  simp [declare, absent]

theorem Valid.declare {table after : SymbolTable} {name : String} (valid : table.Valid)
    (declared : table.declare name = (true, after)) :
    after.Valid ∧ after.toList = table.toList ++ [name] := by
  have fresh : ¬ table.contains name := by
    intro contained
    rw [declare_of_contains contained] at declared
    cases declared
  simp only [SymbolTable.declare, fresh, Bool.false_eq_true, if_false, Prod.mk.injEq,
    true_and] at declared
  subst declared
  have absent : ∀ position : Nat, table.names[position]? ≠ some name := by
    intro position found
    rw [← valid name position] at found
    simp [contains, Std.ExtTreeMap.contains_eq_isSome_getElem?, found] at fresh
  refine ⟨?_, by simp [toList]⟩
  intro other position
  simp only [Std.ExtTreeMap.getElem?_insert, Array.getElem?_push,
    Std.LawfulEqCmp.compare_eq_iff_eq]
  by_cases same : name = other
  · subst same
    grind
  · have known := valid other position
    grind

end SymbolTable

/-- The names that an expression reads. -/
def Expr.uses : Expr → List String
  | .const _ _ => []
  | .var name _ => [name]
  | .unary _ operand _ => operand.uses
  | .binary _ left right _ => left.uses ++ right.uses

mutual

/-- The names that a statement reads or assigns. -/
def Statement.uses : Statement → List String
  | .declare _ _ => []
  | .assign target value _ => target :: value.uses
  | .print value _ => value.uses
  | .loop condition body _ => condition.uses ++ Block.uses body
  | .branch condition whenTrue whenFalse _ =>
      condition.uses ++ Block.uses whenTrue ++ Block.uses whenFalse

def Block.uses : List Statement → List String
  | [] => []
  | statement :: rest => statement.uses ++ Block.uses rest

end

namespace SymbolTable

theorem Valid.require {table : SymbolTable} {name : String} {line : Nat} (valid : table.Valid)
    (required : table.require name line = .ok ()) : name ∈ table.toList := by
  rw [← valid.contains_iff]
  simp only [SymbolTable.require] at required
  split at required
  next contained => exact contained
  next => simp at required

theorem Valid.declareAll {table after : SymbolTable} {names : List String} {line : Nat}
    (valid : table.Valid) (declared : table.declareAll line names = .ok after) :
    after.Valid ∧ after.toList = table.toList ++ names := by
  induction names generalizing table with
  | nil =>
      simp only [SymbolTable.declareAll, Except.ok.injEq] at declared
      subst declared
      exact ⟨valid, by simp⟩
  | cons name names ih =>
      simp only [SymbolTable.declareAll] at declared
      split at declared
      next next once =>
          obtain ⟨valid, listed⟩ := valid.declare once
          obtain ⟨valid, listed'⟩ := ih valid declared
          exact ⟨valid, by simp [listed', listed]⟩
      next => simp at declared

theorem Valid.expr {table : SymbolTable} {expr : Expr} (valid : table.Valid)
    (checked : expr.check table = .ok ()) : ∀ name ∈ expr.uses, name ∈ table.toList := by
  induction expr with
  | const value line => simp [Expr.uses]
  | var name line =>
      intro other member
      obtain rfl := List.mem_singleton.mp member
      exact valid.require checked
  | unary op operand line ih => exact ih checked
  | binary op left right line ihl ihr =>
      obtain ⟨⟨⟩, checkedLeft, checkedRight⟩ := Except.bind_eq_ok_iff.mp checked
      intro name member
      rcases List.mem_append.mp member with member | member
      · exact ihl checkedLeft name member
      · exact ihr checkedRight name member

/-- The table after a part of a program lists the names declared in it after those known before,
    and holds every name that is used in it. -/
structure Covers (before after : SymbolTable) (declared used : List String) : Prop where
  valid : after.Valid
  listed : after.toList = before.toList ++ declared
  holds : ∀ name ∈ used, name ∈ after.toList

theorem Covers.trans {first second third : SymbolTable} {declared declared' used used' : List String}
    (left : Covers first second declared used) (right : Covers second third declared' used') :
    Covers first third (declared ++ declared') (used ++ used') := by
  refine ⟨right.valid, by rw [right.listed, left.listed, List.append_assoc], ?_⟩
  intro name member
  rcases List.mem_append.mp member with member | member
  · rw [right.listed]
    exact List.mem_append_left _ (left.holds name member)
  · exact right.holds name member

theorem Valid.covers {table : SymbolTable} {used : List String} (valid : table.Valid)
    (holds : ∀ name ∈ used, name ∈ table.toList) : Covers table table [] used :=
  ⟨valid, by simp, holds⟩

end SymbolTable

open SymbolTable

mutual

theorem Statement.check_covers {statement : Statement} {table after : SymbolTable}
    (valid : table.Valid) (checked : statement.check table = .ok after) :
    Covers table after statement.declared statement.uses := by
  cases statement with
  | declare names line =>
      obtain ⟨valid, listed⟩ := valid.declareAll checked
      exact ⟨valid, listed, by simp [Statement.uses]⟩
  | assign target value line =>
      obtain ⟨⟨⟩, required, checked⟩ := Except.bind_eq_ok_iff.mp checked
      obtain ⟨⟨⟩, checkedValue, same⟩ := Except.bind_eq_ok_iff.mp checked
      cases same
      refine valid.covers ?_
      intro name member
      rcases List.mem_cons.mp member with rfl | member
      · exact valid.require required
      · exact valid.expr checkedValue name member
  | print value line =>
      obtain ⟨⟨⟩, checkedValue, same⟩ := Except.bind_eq_ok_iff.mp checked
      cases same
      exact valid.covers (valid.expr checkedValue)
  | loop condition body line =>
      obtain ⟨⟨⟩, checkedTest, checkedBody⟩ := Except.bind_eq_ok_iff.mp checked
      exact (valid.covers (valid.expr checkedTest)).trans (Block.check_covers valid checkedBody)
  | branch condition whenTrue whenFalse line =>
      obtain ⟨⟨⟩, checkedTest, checked⟩ := Except.bind_eq_ok_iff.mp checked
      obtain ⟨middle, checkedTrue, checkedFalse⟩ := Except.bind_eq_ok_iff.mp checked
      have test := valid.covers (valid.expr checkedTest)
      have left := test.trans (Block.check_covers valid checkedTrue)
      exact left.trans (Block.check_covers left.valid checkedFalse)
termination_by sizeOf statement

theorem Block.check_covers {statements : List Statement} {table after : SymbolTable}
    (valid : table.Valid) (checked : Block.check table statements = .ok after) :
    Covers table after (Block.declared statements) (Block.uses statements) := by
  cases statements with
  | nil =>
      cases checked
      exact valid.covers (by simp [Block.uses])
  | cons statement rest =>
      obtain ⟨middle, checkedFirst, checkedRest⟩ := Except.bind_eq_ok_iff.mp checked
      have first := Statement.check_covers valid checkedFirst
      exact first.trans (Block.check_covers first.valid checkedRest)
termination_by sizeOf statements

end

theorem Program.check_covers {program : Program} {symbols : SymbolTable}
    (checked : program.check = .ok symbols) :
    symbols.toList = Block.declared program ∧ ∀ name ∈ Block.uses program, name ∈ symbols.toList := by
  have covers := Block.check_covers valid_empty checked
  exact ⟨covers.listed, covers.holds⟩

end TinyImp
