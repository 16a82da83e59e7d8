import TinyImp.Scope.Table
import TinyImp.Statement.Basic

/-! # Declaration before use

A program is well scoped if no name is declared twice and each use of a name comes after its
declaration. Blocks open no scope of their own. The first violation in reading order is reported,
and the target of an assignment is read before its value.
-/

namespace TinyImp

/-- Violations of the scope rules. -/
inductive ScopeFault where
  | alreadyDeclared (name : String)
  | notDeclared (name : String)
  deriving Repr, DecidableEq

instance : Describe ScopeFault where
  describe
    | .alreadyDeclared name => "Variable '" ++ name ++ "' is already declared."
    | .notDeclared name => "Variable '" ++ name ++ "' is not declared."

abbrev ScopeError := Located ScopeFault

namespace SymbolTable

/-- A use of a name on a line. -/
def require (table : SymbolTable) (name : String) (line : Nat) : Except ScopeError Unit :=
  if table.contains name then .ok () else .error { fault := .notDeclared name, line }

/-- A declaration of names on a line. -/
def declareAll (line : Nat) : SymbolTable → List String → Except ScopeError SymbolTable
  | table, [] => .ok table
  | table, name :: rest =>
      match table.declare name with
      | (true, table) => declareAll line table rest
      | (false, _) => .error { fault := .alreadyDeclared name, line }

end SymbolTable

/-- Check the uses in an expression, from left to right. -/
def Expr.check (table : SymbolTable) : Expr → Except ScopeError Unit
  | .const _ _ => .ok ()
  | .var name line => table.require name line
  | .unary _ operand _ => operand.check table
  | .binary _ left right _ => do
      left.check table
      right.check table

mutual

/-- Check a statement against the names declared before it. The result has its own names too. -/
def Statement.check (table : SymbolTable) : Statement → Except ScopeError SymbolTable
  | .declare names line => table.declareAll line names
  | .assign target value line => do
      table.require target line
      value.check table
      return table
  | .print value _ => do
      value.check table
      return table
  | .loop condition body _ => do
      condition.check table
      Block.check table body
  | .branch condition whenTrue whenFalse _ => do
      condition.check table
      let table ← Block.check table whenTrue
      Block.check table whenFalse

def Block.check (table : SymbolTable) : List Statement → Except ScopeError SymbolTable
  | [] => .ok table
  | statement :: rest => do
      let table ← statement.check table
      Block.check table rest

end

/-- The names that a well scoped program declares. -/
def Program.check (program : Program) : Except ScopeError SymbolTable :=
  Block.check {} program

end TinyImp
