import TinyImp.Proofs.Limits

/-! # The limit on nesting only refuses

Deeper inside other levels a parser has less room. This has no influence on what it reads: it ends in
the same way and at the same token as with more room, or the limit stops it. The relation between the
two parsers is kept by everything that parsers are built with, so only the places where a level is
opened have to be looked at.
-/

namespace TinyImp

namespace Parser

variable {α β : Type}

/-- The strict parser ends as the loose one does, with the same tokens left, or a limit stops it. -/
def Tightens (strict loose : Parser α) : Prop :=
  ∀ tokens, strict tokens = loose tokens ∨ Limited strict tokens

namespace Tightens

variable {strict loose : Parser α}

theorem refl (parser : Parser α) : parser.Tightens parser :=
  fun _ => .inl rfl

theorem stopped (line : Nat) (loose : Parser α) : (fail .nestingTooDeep line).Tightens loose :=
  fun tokens => .inr (limited_fail line tokens)

theorem bind {further further' : α → Parser β} (first : strict.Tightens loose)
    (goesOn : ∀ a, (further a).Tightens (further' a)) :
    (strict >>= further).Tightens (loose >>= further') := by
  intro tokens
  rcases first tokens with same | limited
  · cases done : loose tokens with
    | ok a mid =>
        rw [done] at same
        rcases goesOn a mid with alike | limited
        · left
          rw [bind_of_ok same, bind_of_ok done, alike]
        · right
          exact limited.of_eq (bind_of_ok same)
    | error error rest =>
        rw [done] at same
        left
        rw [bind_of_error same, bind_of_error done]
  · right
    exact limited.bind

theorem manyWithin {item item' : Parser (Option α)} (items : item.Tightens item')
    (rounds : Nat) : (Parser.manyWithin item rounds).Tightens (Parser.manyWithin item' rounds) := by
  induction rounds with
  | zero => exact refl _
  | succ rounds ih =>
      apply items.bind
      intro found
      cases found with
      | none => exact refl _
      | some a => exact ih.bind fun _ => refl _

theorem many {item item' : Parser (Option α)} (items : item.Tightens item') :
    (Parser.many item).Tightens (Parser.many item') :=
  fun tokens => items.manyWithin (tokens.length + 1) tokens

end Tightens

end Parser

open TinyImp.Parser (Tightens)

namespace Expr

variable {operand operand' : Parser Expr} {inner inner' : Nat → Parser Expr}

theorem chainWithin_tightens (tier : Tier) (operands : operand.Tightens operand') (rounds : Nat)
    (left : Expr) :
    (chainWithin tier operand rounds left).Tightens (chainWithin tier operand' rounds left) := by
  induction rounds generalizing left with
  | zero => exact .refl _
  | succ rounds ih =>
      apply (Tightens.refl _).bind
      intro found
      cases found with
      | none => exact .refl _
      | some found =>
          apply operands.bind
          intro right
          dsimp only
          split
          · exact ih _
          · exact .refl _

theorem joined_tightens (tiers : List Tier) (operands : operand.Tightens operand') :
    (joined tiers operand).Tightens (joined tiers operand') := by
  induction tiers with
  | nil => exact operands
  | cons tier tiers ih => exact ih.bind fun left => chainWithin_tightens tier ih maxHeight left

theorem primary_tightens (inners : ∀ line, (inner line).Tightens (inner' line)) :
    (primary inner).Tightens (primary inner') := by
  apply (Tightens.refl _).bind
  intro found
  cases found with
  | none => exact .refl _
  | some token =>
      dsimp only
      cases token.kind with
      | leftParen =>
          apply (joined_tightens Tier.all (inners token.line)).bind
          intro expr
          exact .refl _
      | _ => exact .refl _

theorem prefixed_tightens (inners : ∀ line, (inner line).Tightens (inner' line)) :
    (prefixed inner).Tightens (prefixed inner') := by
  apply (Tightens.refl _).bind
  intro found
  cases found with
  | none => exact primary_tightens inners
  | some sign =>
      obtain ⟨op, line⟩ := sign
      have negated : ∀ op, (inner line >>= fun operand => pure (Expr.unary op operand line)).Tightens
          (inner' line >>= fun operand => pure (Expr.unary op operand line)) :=
        fun op => (inners line).bind fun _ => .refl _
      cases op with
      | not => exact negated .not
      | negate =>
          -- The numeral of the least value is taken before a level is opened, in both parsers.
          apply (Tightens.refl _).bind
          intro magnitude
          cases magnitude with
          | some numeralLine => exact .refl _
          | none => exact negated .negate

theorem operand_tightens {room wider : Nat} (le : room ≤ wider) :
    (Expr.operand room).Tightens (Expr.operand wider) := by
  induction room generalizing wider with
  | zero =>
      rw [operand_eq wider]
      exact prefixed_tightens fun line => .stopped line _
  | succ room ih =>
      obtain ⟨wider, rfl⟩ := Nat.exists_eq_add_of_lt le
      exact prefixed_tightens fun _ => ih (by omega)

theorem inside_tightens {room wider : Nat} (le : room ≤ wider) (line : Nat) :
    (inside room line).Tightens (inside wider line) := by
  cases room with
  | zero => exact .stopped line _
  | succ room =>
      obtain ⟨wider, rfl⟩ := Nat.exists_eq_add_of_lt le
      exact operand_tightens (by omega)

theorem tierParser_tightens (tier : Tier) {room wider : Nat} (le : room ≤ wider) :
    (tierParser tier room).Tightens (tierParser tier wider) :=
  joined_tightens tier.andTighter (operand_tightens le)

theorem parser_tightens {room wider : Nat} (le : room ≤ wider) :
    (Expr.parser room).Tightens (Expr.parser wider) :=
  joined_tightens Tier.all (operand_tightens le)

end Expr

namespace Statement

variable {room wider : Nat}

theorem enclosed_tightens (le : room ≤ wider) : (enclosed room).Tightens (enclosed wider) := by
  apply (Tightens.refl _).bind
  intro opening
  exact (Expr.parser_tightens le).bind fun _ => .refl _

theorem assignment_tightens (le : room ≤ wider) :
    (assignment room).Tightens (assignment wider) := by
  apply (Tightens.refl _).bind
  intro target
  apply (Tightens.refl _).bind
  intro sign
  exact (Expr.parser_tightens le).bind fun _ => .refl _

theorem printing_tightens (le : room ≤ wider) : (printing room).Tightens (printing wider) := by
  apply (Tightens.refl _).bind
  intro word
  exact (enclosed_tightens le).bind fun _ => .refl _

variable {block block' : Parser Block}

theorem loopParser_tightens (blocks : block.Tightens block') (le : room ≤ wider) :
    (loopParser block room).Tightens (loopParser block' wider) := by
  apply (Tightens.refl _).bind
  intro word
  apply (enclosed_tightens le).bind
  intro condition
  exact blocks.bind fun _ => .refl _

theorem branchParser_tightens (blocks : block.Tightens block') (le : room ≤ wider) :
    (branchParser block room).Tightens (branchParser block' wider) := by
  apply (Tightens.refl _).bind
  intro word
  apply (enclosed_tightens le).bind
  intro condition
  apply blocks.bind
  intro whenTrue
  apply (Tightens.refl _).bind
  intro found
  cases found with
  | some word => exact blocks.bind fun _ => .refl _
  | none => exact .refl _

theorem parserWith_tightens (blocks : block.Tightens block') (le : room ≤ wider) :
    (parserWith block room).Tightens (parserWith block' wider) := by
  apply (Tightens.refl _).bind
  intro found
  cases found with
  | none => exact .refl _
  | some token =>
      dsimp only
      cases token.kind with
      | identifier => exact assignment_tightens le
      | printWord => exact printing_tightens le
      | whileWord => exact loopParser_tightens blocks le
      | ifWord => exact branchParser_tightens blocks le
      | _ => exact .refl _

end Statement

namespace Block

theorem furtherStatement_tightens {statement statement' : Parser Statement}
    (statements : statement.Tightens statement') (line : Nat) :
    (furtherStatement statement line).Tightens (furtherStatement statement' line) := by
  apply (Tightens.refl _).bind
  intro found
  cases found with
  | some closing => exact .refl _
  | none =>
      apply (Tightens.refl _).bind
      intro next
      cases next with
      | none => exact .refl _
      | some token => exact statements.bind fun _ => .refl _

theorem parser_tightens {room wider : Nat} (le : room ≤ wider) :
    (Block.parser room).Tightens (Block.parser wider) := by
  induction room generalizing wider with
  | zero =>
      -- Both parsers take the brace. Without room the limit stops the one there.
      cases wider with
      | zero => exact .refl _
      | succ wider => exact (Tightens.refl _).bind fun brace => .stopped brace.line _
  | succ room ih =>
      obtain ⟨more, rfl⟩ := Nat.exists_eq_add_of_lt le
      have within : room ≤ room + more := Nat.le_add_right room more
      have statements := Statement.parserWith_tightens (ih within) within
      exact (Tightens.refl _).bind fun brace =>
        (furtherStatement_tightens statements brace.line).many

end Block

theorem Statement.parser_tightens {room wider : Nat} (le : room ≤ wider) :
    (Statement.parser room).Tightens (Statement.parser wider) :=
  parserWith_tightens (Block.parser_tightens le) le

theorem roomAt_le {depth deeper : Nat} (le : depth ≤ deeper) : roomAt deeper ≤ roomAt depth :=
  Nat.sub_le_sub_left le maxNesting

/-- Deeper inside other levels, every parser that may open a level ends as it does less deep, with the
    same result or error and the same tokens left, or the limit on nesting stops it. -/
theorem deeper_nesting_only_refuses {depth deeper : Nat} (le : depth ≤ deeper) :
    (Expr.parser (roomAt deeper)).Tightens (Expr.parser (roomAt depth)) ∧
    (∀ tier, (Expr.tierParser tier (roomAt deeper)).Tightens
      (Expr.tierParser tier (roomAt depth))) ∧
    (Expr.operand (roomAt deeper)).Tightens (Expr.operand (roomAt depth)) ∧
    (Expr.primary (Expr.inside (roomAt deeper))).Tightens
      (Expr.primary (Expr.inside (roomAt depth))) ∧
    (Statement.parser (roomAt deeper)).Tightens (Statement.parser (roomAt depth)) ∧
    (Block.parser (roomAt deeper)).Tightens (Block.parser (roomAt depth)) := by
  have within := roomAt_le le
  exact ⟨Expr.parser_tightens within, fun tier => Expr.tierParser_tightens tier within,
    Expr.operand_tightens within, Expr.primary_tightens (Expr.inside_tightens within),
    Statement.parser_tightens within, Block.parser_tightens within⟩

/-- Inside 128 levels the least value is still read, since its sign opens no level, whereas a
    parenthesis is refused. -/
theorem least_value_needs_no_room :
    let least : List Token :=
      [⟨⟨1, 1⟩, .minus, "-"⟩, ⟨⟨1, 2⟩, .number, "9223372036854775808"⟩]
    let parens : List Token :=
      [⟨⟨1, 1⟩, .leftParen, "("⟩, ⟨⟨1, 2⟩, .identifier, "x"⟩, ⟨⟨1, 3⟩, .rightParen, ")"⟩]
    Expr.parser (roomAt 128) least = Expr.parser (roomAt 0) least ∧
    Expr.parser (roomAt 0) parens = .ok (.var "x" 1) [] ∧
    Parser.Limited (Expr.parser (roomAt 128)) parens := by
  intro least parens
  obtain ⟨tightens, -⟩ := deeper_nesting_only_refuses (Nat.zero_le 128)
  have read : Expr.parser (roomAt 128) least = .ok (.const Value.least 1) [] := rfl
  have opened : Expr.parser (roomAt 0) parens = .ok (.var "x" 1) [] := rfl
  have refused : Expr.parser (roomAt 128) parens =
      .error { fault := .nestingTooDeep, line := 1 } parens.tail := rfl
  refine ⟨?_, opened, ?_⟩
  · rcases tightens least with same | ⟨line, left, limited⟩
    · exact same
    · rw [read] at limited
      cases limited
  · rcases tightens parens with same | limited
    · rw [refused, opened] at same
      cases same
    · exact limited

end TinyImp
