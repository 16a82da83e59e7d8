import TinyImp.Proofs.Grammar
import TinyImp.Proofs.Rendering

/-! # The limit on height

An operator with two operands may not make a tree too high, while a prefix operator only opens a
level. So what a phrase keeps low is the tree under the prefix operators at its root. This is all
that tells the limits apart: a phrase under any others that is low in this sense and opens few
levels is a phrase under the standard ones.
-/

namespace TinyImp

namespace Expr

/-- What stands under the prefix operators at the root. -/
def bare : Expr → Expr
  | .unary _ operand _ => operand.bare
  | expr => expr

/-- The tree keeps the limit on height, apart from prefix operators at its root. -/
def Low (expr : Expr) : Prop :=
  expr.bare.height ≤ maxHeight

theorem bare_height_le (expr : Expr) : expr.bare.height ≤ expr.height := by
  induction expr with
  | const value line | var name line | binary op left right line => exact Nat.le_refl _
  | unary op operand line ih =>
      simp only [bare, height]
      omega

theorem Low.of_height {expr : Expr} (low : expr.height ≤ maxHeight) : expr.Low :=
  Nat.le_trans expr.bare_height_le low

theorem Phrase.low {tiers : List Tier} {depth : Nat} {used : List Token} {expr : Expr}
    (phrase : Phrase .standard tiers depth used expr) : expr.Low := by
  induction phrase with
  | number | name | least => exact .of_height (by simp only [height]; decide)
  | parens _ _ _ _ ih | unary _ _ _ ih | tighter _ ih => exact ih
  | binary _ _ _ _ low => exact low

theorem Phrase.standard_of_low {limits : Limits} {tiers : List Tier} {depth : Nat}
    {used : List Token} {expr : Expr} (phrase : Phrase limits tiers depth used expr)
    (few : limits.nesting ≤ maxNesting) (low : expr.Low) :
    Phrase .standard tiers depth used expr := by
  induction phrase with
  | number isNumber denotes => exact .number isNumber denotes
  | name isName => exact .name isName
  | parens isOpening below _ isClosing ih =>
      exact .parens isOpening (Nat.lt_of_lt_of_le below few) (ih low) isClosing
  | least isMinus isNumber denotes => exact .least isMinus isNumber denotes
  | unary reads below _ ih => exact .unary reads (Nat.lt_of_lt_of_le below few) (ih low)
  | tighter _ ih => exact .tighter (ih low)
  | @binary _ _ _ _ _ left right sign op _ reads atTier _ _ ihl ihr =>
      have high : (Expr.binary op left right sign.line).height ≤ maxHeight := low
      simp only [height] at high
      exact .binary (ihl (.of_height (by omega))) reads atTier (ihr (.of_height (by omega))) low

theorem Enclosed.low {depth : Nat} {used : List Token} {expr : Expr}
    (enclosed : Enclosed .standard depth used expr) : expr.Low := by
  cases enclosed with
  | parens _ phrase _ => exact phrase.low

theorem Enclosed.standard_of_low {limits : Limits} {depth : Nat} {used : List Token} {expr : Expr}
    (enclosed : Enclosed limits depth used expr) (few : limits.nesting ≤ maxNesting)
    (low : expr.Low) : Enclosed .standard depth used expr := by
  cases enclosed with
  | parens isOpening phrase isClosing =>
      exact .parens isOpening (phrase.standard_of_low few low) isClosing

end Expr

mutual

theorem Statement.Phrase.low {depth : Nat} {used : List Token} {statement : Statement}
    (phrase : Statement.Phrase .standard depth used statement) :
    ∀ expr ∈ statement.exprs, expr.Low := by
  cases phrase with
  | declare => simp [Statement.exprs]
  | assign _ _ value _ => exact List.forall_mem_singleton.mpr value.low
  | print _ value _ => exact List.forall_mem_singleton.mpr value.low
  | loop _ condition body =>
      obtain ⟨_, _, row, _⟩ := body
      exact List.forall_mem_cons.mpr ⟨condition.low, row.low⟩
  | branch _ condition whenTrue =>
      obtain ⟨_, _, row, _⟩ := whenTrue
      simp only [Statement.exprs, Block.exprs, List.append_nil]
      exact List.forall_mem_cons.mpr ⟨condition.low, row.low⟩
  | branchElse _ condition whenTrue _ whenFalse =>
      obtain ⟨_, _, rowTrue, _⟩ := whenTrue
      obtain ⟨_, _, rowFalse, _⟩ := whenFalse
      have blocks := List.forall_mem_append.mpr ⟨rowTrue.low, rowFalse.low⟩
      exact List.forall_mem_cons.mpr ⟨condition.low, blocks⟩
termination_by sizeOf statement

theorem Block.Row.low {depth : Nat} {used : List Token} {block : Block}
    (row : Block.Row .standard depth used block) : ∀ expr ∈ Block.exprs block, expr.Low := by
  cases row with
  | nil => simp [Block.exprs]
  | cons phrase row => exact List.forall_mem_append.mpr ⟨phrase.low, row.low⟩
termination_by sizeOf block

end

mutual

theorem Statement.Phrase.standard_of_low {limits : Limits} {depth : Nat} {used : List Token}
    {statement : Statement} (phrase : Statement.Phrase limits depth used statement)
    (few : limits.nesting ≤ maxNesting) (low : ∀ expr ∈ statement.exprs, expr.Low) :
    Statement.Phrase .standard depth used statement := by
  cases phrase with
  | declare isWord isName further => exact .declare isWord isName further
  | assign isName isEquals value isSemicolon =>
      have valueLow := List.forall_mem_singleton.mp low
      exact .assign isName isEquals (value.standard_of_low few valueLow) isSemicolon
  | print isWord value isSemicolon =>
      have valueLow := List.forall_mem_singleton.mp low
      exact .print isWord (value.standard_of_low few valueLow) isSemicolon
  | loop isWord condition body =>
      obtain ⟨conditionLow, bodyLow⟩ := List.forall_mem_cons.mp low
      obtain ⟨isOpening, below, row, isClosing⟩ := body
      exact .loop isWord (condition.standard_of_low few conditionLow)
        (.braces isOpening (Nat.lt_of_lt_of_le below few) (row.standard_of_low few bodyLow) isClosing)
  | branch isWord condition whenTrue =>
      obtain ⟨conditionLow, blocksLow⟩ := List.forall_mem_cons.mp low
      obtain ⟨trueLow, _⟩ := List.forall_mem_append.mp blocksLow
      obtain ⟨isOpening, below, row, isClosing⟩ := whenTrue
      exact .branch isWord (condition.standard_of_low few conditionLow)
        (.braces isOpening (Nat.lt_of_lt_of_le below few) (row.standard_of_low few trueLow) isClosing)
  | branchElse isWord condition whenTrue isElse whenFalse =>
      obtain ⟨conditionLow, blocksLow⟩ := List.forall_mem_cons.mp low
      obtain ⟨trueLow, falseLow⟩ := List.forall_mem_append.mp blocksLow
      obtain ⟨opensTrue, below, rowTrue, closesTrue⟩ := whenTrue
      obtain ⟨opensFalse, _, rowFalse, closesFalse⟩ := whenFalse
      have room := Nat.lt_of_lt_of_le below few
      exact .branchElse isWord (condition.standard_of_low few conditionLow)
        (.braces opensTrue room (rowTrue.standard_of_low few trueLow) closesTrue) isElse
        (.braces opensFalse room (rowFalse.standard_of_low few falseLow) closesFalse)
termination_by sizeOf statement

theorem Block.Row.standard_of_low {limits : Limits} {depth : Nat} {used : List Token}
    {block : Block} (row : Block.Row limits depth used block) (few : limits.nesting ≤ maxNesting)
    (low : ∀ expr ∈ Block.exprs block, expr.Low) : Block.Row .standard depth used block := by
  cases row with
  | nil => exact .nil
  | cons first row =>
      obtain ⟨firstLow, rowLow⟩ := List.forall_mem_append.mp low
      exact .cons (first.standard_of_low few firstLow) (row.standard_of_low few rowLow)
termination_by sizeOf block

end

end TinyImp
