import TinyImp.Expr.Basic
import TinyImp.Text

/-! # Statements and programs

Every statement carries the line of its first token. The printed form of a program is an outline:
one line for each statement and block, indented by two blanks for each level.
-/

namespace TinyImp

inductive Statement where
  /-- Declaration of integer variables. -/
  | declare (names : List String) (line : Nat)
  | assign (target : String) (value : Expr) (line : Nat)
  | print (value : Expr) (line : Nat)
  /-- A loop that runs its body as long as the condition is true. -/
  | loop (condition : Expr) (body : List Statement) (line : Nat)
  /-- A choice between two blocks. A choice without a second block has an empty one. -/
  | branch (condition : Expr) (whenTrue whenFalse : List Statement) (line : Nat)
  deriving Repr

/-- The statements between two braces. -/
abbrev Block := List Statement

/-- The statements of a whole source. -/
abbrev Program := List Statement

mutual

/-- The lines that show a statement at a depth. -/
def Statement.outline (depth : Nat) : Statement → List String
  | .declare names _ => [indented depth ("Decl int " ++ String.intercalate ", " names)]
  | .assign target value _ => [indented depth ("Assign " ++ target ++ " = " ++ value.render)]
  | .print value _ => [indented depth ("Print " ++ value.render)]
  | .loop condition body _ =>
      indented depth ("While " ++ condition.render) ::
        indented (depth + 1) "Block" :: Block.outline (depth + 2) body
  | .branch condition whenTrue whenFalse _ =>
      indented depth ("If " ++ condition.render) ::
        indented (depth + 1) "Block" :: Block.outline (depth + 2) whenTrue ++
        match whenFalse with
        | [] => []
        | _ :: _ =>
            indented depth "Else" ::
              indented (depth + 1) "Block" :: Block.outline (depth + 2) whenFalse

def Block.outline (depth : Nat) : List Statement → List String
  | [] => []
  | statement :: rest => statement.outline depth ++ Block.outline depth rest

end

def Statement.render (statement : Statement) : String :=
  unlines (statement.outline 0)

def Program.render (program : Program) : String :=
  unlines ("Program" :: Block.outline 1 program)

end TinyImp
