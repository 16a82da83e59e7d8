import TinyImp.Expr.Eval
import TinyImp.Run
import TinyImp.Statement.Basic

/-! # Walking the tree

A program is run on its statements directly: the state is the list of statements still to be run and
the store. Declarations do nothing, since the declared variables exist from the start.
-/

namespace TinyImp

/-- The statements still to be run, and the store. -/
structure Walk where
  pending : List Statement
  store : Store

/-- Run a statement, or the test of its condition. The result is what has to be run next, before the
    statements behind it. -/
def Statement.perform : Statement → Action RuntimeError Store (List Statement)
  | .declare _ _ => return []
  | .assign target value line => do
      let result ← .look fun store => value.eval store
      let after ← .look fun store => locate line (store.assign target result)
      .alter fun _ => after
      .emit (.assigned target result)
      return []
  | .print value _ => do
      let result ← .look fun store => value.eval store
      .emit (.printed result)
      return []
  | .loop condition body line => do
      let result ← .look fun store => condition.eval store
      return if result.isTrue then body ++ [.loop condition body line] else []
  | .branch condition whenTrue whenFalse _ => do
      let result ← .look fun store => condition.eval store
      return if result.isTrue then whenTrue else whenFalse

def Walk.step (walk : Walk) : Step Walk :=
  match walk.pending with
  | [] => .finish
  | statement :: rest =>
      statement.perform.step walk.store id (fun store => { walk with store })
        fun next store => { pending := next ++ rest, store }

end TinyImp
