import TinyImp.Proofs.Parsing

/-! # Trees of bounded depth

A parsed program is limited in depth as a whole, not only level by level. A block takes one of the
levels that are left, and so does each prefix operator above a binary node; a binary node is limited
by its height. So what has been used up by blocks is missing to the expressions inside them.
-/

namespace TinyImp

/-- A node of a program tree. -/
inductive Node where
  | statement (statement : Statement)
  | block (block : Block)
  | expr (expr : Expr)

namespace Node

def isBlock : Node → Bool
  | .block _ => true
  | .statement _ | .expr _ => false

/-- The nodes immediately below a node. -/
inductive Child : Node → Node → Prop where
  | assigned {target : String} {value : Expr} {line : Nat} :
      Child (.statement (.assign target value line)) (.expr value)
  | printed {value : Expr} {line : Nat} :
      Child (.statement (.print value line)) (.expr value)
  | loopCondition {condition : Expr} {body : Block} {line : Nat} :
      Child (.statement (.loop condition body line)) (.expr condition)
  | loopBody {condition : Expr} {body : Block} {line : Nat} :
      Child (.statement (.loop condition body line)) (.block body)
  | branchCondition {condition : Expr} {whenTrue whenFalse : Block} {line : Nat} :
      Child (.statement (.branch condition whenTrue whenFalse line)) (.expr condition)
  | whenTrue {condition : Expr} {whenTrue whenFalse : Block} {line : Nat} :
      Child (.statement (.branch condition whenTrue whenFalse line)) (.block whenTrue)
  | whenFalse {condition : Expr} {whenTrue whenFalse : Block} {line : Nat} :
      Child (.statement (.branch condition whenTrue whenFalse line)) (.block whenFalse)
  | member {block : Block} {statement : Statement} :
      statement ∈ block →
      Child (.block block) (.statement statement)
  | operand {op : UnaryOp} {operand : Expr} {line : Nat} :
      Child (.expr (.unary op operand line)) (.expr operand)
  | left {op : BinaryOp} {left right : Expr} {line : Nat} :
      Child (.expr (.binary op left right line)) (.expr left)
  | right {op : BinaryOp} {left right : Expr} {line : Nat} :
      Child (.expr (.binary op left right line)) (.expr right)

/-- A way down the tree: the node where it starts and those it passes, to a leaf or less far. -/
inductive Path : Node → List Node → Prop where
  | stop (node : Node) : Path node [node]
  | step {node next : Node} {path : List Node} :
      Child node next →
      Path next path →
      Path node (node :: path)

end Node

/-- The prefix operators over a binary node use up levels. -/
theorem Expr.Phrase.height_le {limits : Limits} {tiers : List Tier} {depth : Nat}
    {used : List Token} {expr : Expr} (phrase : Expr.Phrase limits tiers depth used expr)
    (positive : 0 < limits.height) : expr.height ≤ limits.height + (limits.nesting - depth) := by
  induction phrase with
  | number | name | least =>
      simp only [Expr.height]
      omega
  | parens _ _ _ _ ih => omega
  | unary _ _ _ ih =>
      simp only [Expr.height]
      omega
  | tighter _ ih => exact ih
  | binary _ _ _ _ low => omega

theorem Expr.Enclosed.height_le {limits : Limits} {depth : Nat} {used : List Token} {expr : Expr}
    (enclosed : Expr.Enclosed limits depth used expr) (positive : 0 < limits.height) :
    expr.height ≤ limits.height + (limits.nesting - depth) := by
  cases enclosed with
  | parens _ phrase _ => exact phrase.height_le positive

theorem Block.Row.of_mem {limits : Limits} {depth : Nat} {used : List Token} {block : Block}
    {statement : Statement} (row : Block.Row limits depth used block) (member : statement ∈ block) :
    ∃ usedHere, Statement.Phrase limits depth usedHere statement := by
  induction block generalizing used with
  | nil => cases member
  | cons first block ih =>
      cases row with
      | cons phrase row =>
          rcases List.mem_cons.mp member with rfl | later
          · exact ⟨_, phrase⟩
          · exact ih row later

namespace Node

/-- The node stands inside so many levels. Inside an expression only its height counts. -/
def Inside (depth : Nat) : Node → Prop
  | .statement phrase => ∃ used, Statement.Phrase .standard depth used phrase
  | .block body => ∃ used, Block.Row .standard depth used body
  | .expr _ => True

/-- The blocks that a way down from a node may pass. -/
def blockLimit (depth : Nat) : Node → Nat
  | .statement _ => maxNesting - depth
  | .block _ => maxNesting - depth + 1
  | .expr _ => 0

/-- The statements and expressions that a way down from a node may pass. -/
def nodeLimit (depth : Nat) : Node → Nat
  | .statement _ | .block _ => maxNesting - depth + maxHeight + 1
  | .expr tree => tree.height

/-- What one step down leaves of the limits: no less than what the node it leaves has taken. -/
structure Descends (depth : Nat) (node next : Node) (depth' : Nat) : Prop where
  inside : next.Inside depth'
  blocks : (if node.isBlock then 1 else 0) + next.blockLimit depth' ≤ node.blockLimit depth
  nodes : (if node.isBlock then 0 else 1) + next.nodeLimit depth' ≤ node.nodeLimit depth

theorem Descends.expr {depth : Nat} {statement : Statement} {expr : Expr}
    (low : expr.height ≤ maxHeight + (maxNesting - depth)) :
    Descends depth (.statement statement) (.expr expr) depth where
  inside := trivial
  blocks := by simp [isBlock, blockLimit]
  nodes := by
    simp only [isBlock, nodeLimit, Bool.false_eq_true, if_false]
    omega

theorem Descends.block {depth : Nat} {statement : Statement} {block : Block} {used : List Token}
    (below : depth < maxNesting) (row : Block.Row .standard (depth + 1) used block) :
    Descends depth (.statement statement) (.block block) (depth + 1) where
  inside := ⟨used, row⟩
  blocks := by
    simp only [isBlock, blockLimit, Bool.false_eq_true, if_false]
    omega
  nodes := by
    simp only [isBlock, nodeLimit, Bool.false_eq_true, if_false]
    omega

theorem Inside.descends {depth : Nat} {node next : Node} (inside : node.Inside depth)
    (child : Child node next) : ∃ depth', Descends depth node next depth' := by
  have positive : 0 < Limits.standard.height := by decide
  cases child with
  | assigned =>
      obtain ⟨_, phrase⟩ := inside
      cases phrase with
      | assign _ _ value => exact ⟨depth, .expr (value.height_le positive)⟩
  | printed =>
      obtain ⟨_, phrase⟩ := inside
      cases phrase with
      | print _ value => exact ⟨depth, .expr (value.height_le positive)⟩
  | loopCondition =>
      obtain ⟨_, phrase⟩ := inside
      cases phrase with
      | loop _ condition => exact ⟨depth, .expr (condition.height_le positive)⟩
  | loopBody =>
      obtain ⟨_, phrase⟩ := inside
      cases phrase with
      | loop _ _ body =>
          cases body with
          | braces _ below row => exact ⟨depth + 1, .block below row⟩
  | branchCondition =>
      obtain ⟨_, phrase⟩ := inside
      cases phrase with
      | branch _ condition | branchElse _ condition =>
          exact ⟨depth, .expr (condition.height_le positive)⟩
  | whenTrue =>
      obtain ⟨_, phrase⟩ := inside
      cases phrase with
      | branch _ _ block | branchElse _ _ block =>
          cases block with
          | braces _ below row => exact ⟨depth + 1, .block below row⟩
  | whenFalse =>
      obtain ⟨_, phrase⟩ := inside
      cases phrase with
      | branch _ _ block =>
          -- A missing second block is empty, and the first one shows that there is a level left.
          cases block with
          | braces _ below _ => exact ⟨depth + 1, .block below .nil⟩
      | branchElse _ _ _ _ block =>
          cases block with
          | braces _ below row => exact ⟨depth + 1, .block below row⟩
  | member isMember =>
      obtain ⟨_, row⟩ := inside
      refine ⟨depth, row.of_mem isMember, ?_, ?_⟩
      · simp only [isBlock, blockLimit, if_true]
        omega
      · simp [isBlock, nodeLimit]
  | operand =>
      refine ⟨depth, trivial, by simp [isBlock, blockLimit], ?_⟩
      simp [isBlock, nodeLimit, Expr.height]
  | left | right =>
      refine ⟨depth, trivial, by simp [isBlock, blockLimit], ?_⟩
      simp only [isBlock, nodeLimit, Expr.height, Bool.false_eq_true, if_false]
      omega

theorem Path.within {depth : Nat} {node : Node} {path : List Node} (descends : Path node path)
    (inside : node.Inside depth) :
    path.countP isBlock ≤ node.blockLimit depth ∧
      path.countP (fun node => !node.isBlock) ≤ node.nodeLimit depth := by
  induction descends generalizing depth with
  | stop node =>
      cases node with
      | statement statement => simp [isBlock, nodeLimit]
      | block block => simp [isBlock, blockLimit]
      | expr expr =>
          have positive : 1 ≤ expr.height := expr.height_pos
          simpa [isBlock, nodeLimit] using positive
  | @step node next path child _ ih =>
      obtain ⟨depth', down⟩ := inside.descends child
      obtain ⟨blocks, nodes⟩ := ih down.inside
      have blocksHere := down.blocks
      have nodesHere := down.nodes
      rw [List.countP_cons, List.countP_cons]
      cases here : node.isBlock with
      | true =>
          simp only [here, if_true] at blocksHere nodesHere ⊢
          simp only [Bool.not_true, Bool.false_eq_true, if_false]
          omega
      | false =>
          simp only [here, Bool.false_eq_true, if_false] at blocksHere nodesHere ⊢
          simp only [Bool.not_false, if_true]
          omega

end Node

/-- Every way down from a statement of a parsed program, to a leaf of an expression or less far,
    passes at most `maxNesting` blocks, and at most `maxNesting + maxHeight + 1` statements and
    expressions. -/
theorem parsed_trees_are_shallow {tokens : List Token} {program : Program}
    (parsed : Program.ofTokens tokens = .ok program) {statement : Statement}
    (member : statement ∈ program) {path : List Node}
    (descends : Node.Path (.statement statement) path) :
    path.countP Node.isBlock ≤ maxNesting ∧
      path.countP (fun node => !node.isBlock) ≤ maxNesting + maxHeight + 1 := by
  have row : Block.Row .standard 0 tokens program := Program.ofTokens_eq_ok_iff.mp parsed
  have inside : Node.Inside 0 (.statement statement) := row.of_mem member
  exact descends.within inside

/-- The way down to the variable in `while(1){print(-x);}` passes a block and four other nodes. -/
theorem negation_in_loop_is_shallow :
    ∃ (tokens : List Token) (loop : Statement) (path : List Node),
      Program.ofTokens tokens = .ok [loop] ∧ Node.Path (.statement loop) path ∧
      path.getLast? = some (.expr (.var "x" 1)) ∧
      path.countP Node.isBlock = 1 ∧ 1 ≤ maxNesting ∧
      path.countP (fun node => !node.isBlock) = 4 ∧ 4 ≤ maxNesting + maxHeight + 1 := by
  let negation := Expr.unary .negate (.var "x" 1) 1
  let print := Statement.print negation 1
  let loop := Statement.loop (.const 1 1) [print] 1
  let tokens : List Token :=
    [⟨⟨1, 1⟩, .whileWord, "while"⟩, ⟨⟨1, 6⟩, .leftParen, "("⟩, ⟨⟨1, 7⟩, .number, "1"⟩,
      ⟨⟨1, 8⟩, .rightParen, ")"⟩, ⟨⟨1, 9⟩, .leftBrace, "\x7b"⟩, ⟨⟨1, 10⟩, .printWord, "print"⟩,
      ⟨⟨1, 15⟩, .leftParen, "("⟩, ⟨⟨1, 16⟩, .minus, "-"⟩, ⟨⟨1, 17⟩, .identifier, "x"⟩,
      ⟨⟨1, 18⟩, .rightParen, ")"⟩, ⟨⟨1, 19⟩, .semicolon, ";"⟩, ⟨⟨1, 20⟩, .rightBrace, "\x7d"⟩]
  have parsed : Program.ofTokens tokens = .ok [loop] := rfl
  have descends : Node.Path (.statement loop)
      [.statement loop, .block [print], .statement print, .expr negation, .expr (.var "x" 1)] :=
    .step .loopBody (.step (.member List.mem_cons_self) (.step .printed (.step .operand (.stop _))))
  obtain ⟨blocks, nodes⟩ := parsed_trees_are_shallow parsed List.mem_cons_self descends
  exact ⟨tokens, loop, _, parsed, descends, rfl, rfl, blocks, rfl, nodes⟩

end TinyImp
