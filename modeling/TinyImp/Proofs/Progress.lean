import TinyImp.Proofs.Parsers
import TinyImp.Statement.Parser

/-! # Parsers move forward

What a parser leaves is an end of the tokens it was given, after a result as after an error, and a
result takes at least one of them. Some parsers only look at a token. In a sequence it is enough that
one of the parsers takes a token, and which one does may depend on what was found.
-/

namespace TinyImp

namespace Parser

variable {α β : Type}

/-- The tokens that are left, after a result as after an error. -/
def left : EStateM.Result SyntaxError (List Token) α → List Token
  | .ok _ rest | .error _ rest => rest

/-- What the parser leaves is an end of the tokens it was given. -/
def Forward (parser : Parser α) : Prop :=
  ∀ tokens, left (parser tokens) <:+ tokens

/-- The parser moves forward, and it takes a token for each result of a certain kind. -/
structure Moves (counts : α → Prop) (parser : Parser α) : Prop where
  forward : parser.Forward
  takes : ∀ {tokens a rest}, parser tokens = .ok a rest → counts a → rest.length < tokens.length

/-- The parser moves forward, and it takes a token for each result. -/
abbrev Advances (parser : Parser α) : Prop :=
  parser.Moves fun _ => True

variable {counts : α → Prop} {countsToo : β → Prop} {first : Parser α} {further : α → Parser β}
  {tokens rest : List Token}

theorem Forward.rest_suffix {a : α} (forward : first.Forward) (done : first tokens = .ok a rest) :
    rest <:+ tokens := by
  have suffix := forward tokens
  rwa [done] at suffix

namespace Forward

theorem pure (a : α) : (Pure.pure a : Parser α).Forward :=
  List.suffix_refl

theorem fail (fault : SyntaxFault) (line : Nat) : (Parser.fail fault line : Parser α).Forward :=
  List.suffix_refl

theorem peek : Parser.peek.Forward :=
  List.suffix_refl

theorem bind (forward : first.Forward) (goesOn : ∀ a, (further a).Forward) :
    (first >>= further).Forward := by
  intro tokens
  have suffix := forward tokens
  cases done : first tokens with
  | error error rest =>
      rw [done] at suffix
      rw [bind_of_error done]
      exact suffix
  | ok a rest =>
      rw [done] at suffix
      rw [bind_of_ok done]
      exact (goesOn a rest).trans suffix

theorem manyWithin {item : Parser (Option α)} (items : item.Forward) (rounds : Nat) :
    (Parser.manyWithin item rounds).Forward := by
  induction rounds with
  | zero => exact pure []
  | succ rounds ih =>
      apply items.bind
      intro found
      cases found with
      | none => exact pure []
      | some a => exact ih.bind fun _ => pure _

theorem many {item : Parser (Option α)} (items : item.Forward) : (Parser.many item).Forward :=
  fun tokens => items.manyWithin (tokens.length + 1) tokens

end Forward

namespace Moves

/-- A token has to be taken by one of two parsers only. -/
theorem bind (moves : first.Moves counts) (forward : ∀ a, (further a).Forward)
    (takes : ∀ a, ¬ counts a → (further a).Moves countsToo) :
    (first >>= further).Moves countsToo := by
  refine ⟨moves.forward.bind forward, ?_⟩
  intro tokens b rest done wanted
  obtain ⟨a, mid, taken, goesOn⟩ := bind_eq_ok_iff.mp done
  have le := (moves.forward.rest_suffix taken).length_le
  have le' := ((forward a).rest_suffix goesOn).length_le
  by_cases counted : counts a
  · have shorter := moves.takes taken counted
    omega
  · have shorter := (takes a counted).takes goesOn wanted
    omega

theorem pure {a : α} (free : ¬ counts a) : (Pure.pure a : Parser α).Moves counts := by
  refine ⟨.pure a, ?_⟩
  intro tokens result rest done counted
  obtain ⟨rfl, rfl⟩ := pure_eq_ok_iff.mp done
  exact absurd counted free

theorem fail (fault : SyntaxFault) (line : Nat) : (Parser.fail fault line : Parser α).Moves counts :=
  ⟨.fail fault line, fun done => absurd done fail_ne_ok⟩

theorem misplaced (kind : Token.Kind) (found : Option Token) :
    (Parser.misplaced kind found : Parser α).Moves counts := by
  cases found with
  | none => exact fail _ _
  | some token => exact fail _ _

theorem next : Parser.next.Moves fun found => found ≠ none := by
  refine ⟨List.tail_suffix, ?_⟩
  intro tokens found rest done isSome
  obtain ⟨token, rfl⟩ := Option.ne_none_iff_exists'.mp isSome
  rw [next_eq_ok_some_iff.mp done]
  exact Nat.lt_succ_self rest.length

theorem nextMatching (choose : Token → Option α) :
    (Parser.nextMatching choose).Moves fun found => found ≠ none := by
  constructor
  · intro tokens
    cases tokens with
    | nil => exact List.suffix_refl []
    | cons token rest =>
        cases chosen : choose token with
        | none => simp [Parser.nextMatching, chosen, left]
        | some a => simp [Parser.nextMatching, chosen, left]
  · intro tokens found rest done isSome
    obtain ⟨a, rfl⟩ := Option.ne_none_iff_exists'.mp isSome
    obtain ⟨token, rfl, _⟩ := nextMatching_eq_ok_some_iff.mp done
    exact Nat.lt_succ_self rest.length

/-- A parser that goes on without a token has to take one later. -/
theorem bindFound {first : Parser (Option α)} {further : Option α → Parser β}
    (moves : first.Moves fun found => found ≠ none) (absent : (further none).Moves countsToo)
    (present : ∀ a, (further (some a)).Forward) : (first >>= further).Moves countsToo := by
  apply moves.bind
  · intro found
    cases found with
    | none => exact absent.forward
    | some a => exact present a
  · intro found isNone
    obtain rfl := Decidable.of_not_not isNone
    exact absent

end Moves

theorem Advances.bind (advances : first.Advances) (forward : ∀ a, (further a).Forward) :
    (first >>= further).Moves countsToo :=
  Moves.bind advances forward fun _ impossible => absurd trivial impossible

theorem Forward.bindMoves (forward : first.Forward) (moves : ∀ a, (further a).Moves countsToo) :
    (first >>= further).Moves countsToo := by
  have idle : first.Moves fun _ => False := ⟨forward, fun _ impossible => impossible.elim⟩
  exact idle.bind (fun a => (moves a).forward) fun a _ => moves a

theorem expect_advances (kind : Token.Kind) : (expect kind).Advances := by
  apply (Moves.nextMatching _).bindFound
  · exact Forward.peek.bindMoves fun found => .misplaced kind found
  · exact .pure

theorem identifier_advances : identifier.Advances := by
  apply Moves.next.bindFound
  · exact .fail _ _
  · intro token
    dsimp only
    split
    · exact .pure token
    · exact .fail _ _

end Parser

open TinyImp.Parser

namespace Expr

variable {operand : Parser Expr} {inner : Nat → Parser Expr}

theorem chainWithin_forward (tier : Tier) (operands : operand.Forward) (rounds : Nat) (left : Expr) :
    (chainWithin tier operand rounds left).Forward := by
  induction rounds generalizing left with
  | zero => exact .pure left
  | succ rounds ih =>
      apply (Moves.nextMatching _).forward.bind
      intro found
      cases found with
      | none => exact .pure left
      | some found =>
          apply operands.bind
          intro right
          dsimp only
          split
          · exact ih _
          · exact .fail _ _

theorem joined_advances (tiers : List Tier) (operands : operand.Advances) :
    (joined tiers operand).Advances := by
  induction tiers with
  | nil => exact operands
  | cons tier tiers ih => exact ih.bind (chainWithin_forward tier ih.forward maxHeight)

theorem primary_advances (inners : ∀ line, (inner line).Advances) : (primary inner).Advances := by
  apply Moves.next.bindFound
  · exact .fail _ _
  · intro token
    dsimp only
    cases token.kind with
    | leftParen =>
        apply (joined_advances Tier.all (inners token.line)).forward.bind
        intro expr
        exact (expect_advances .rightParen).forward.bind fun _ => .pure expr
    | number =>
        dsimp only
        cases Value.ofDecimal? token.lexeme with
        | none => exact .fail _ _
        | some value => exact .pure _
    | identifier => exact .pure _
    | _ => exact .fail _ _

theorem prefixed_advances (inners : ∀ line, (inner line).Advances) :
    (prefixed inner).Advances := by
  apply (Moves.nextMatching _).bindFound
  · exact primary_advances inners
  · intro sign
    obtain ⟨op, line⟩ := sign
    have under : ∀ op, (inner line >>= fun operand => pure (Expr.unary op operand line)).Forward :=
      fun op => (inners line).forward.bind fun _ => .pure _
    cases op with
    | not => exact under .not
    | negate =>
        apply (Moves.nextMatching leastMagnitude).forward.bind
        intro magnitude
        cases magnitude with
        | some numeralLine => exact .pure _
        | none => exact under .negate

theorem operand_advances (room : Nat) : (Expr.operand room).Advances := by
  induction room with
  | zero => exact prefixed_advances fun line => .fail _ line
  | succ room ih => exact prefixed_advances fun _ => ih

theorem inside_advances (room line : Nat) : (inside room line).Advances := by
  cases room with
  | zero => exact .fail _ line
  | succ room => exact operand_advances room

theorem tierParser_advances (tier : Tier) (room : Nat) : (tierParser tier room).Advances :=
  joined_advances tier.andTighter (operand_advances room)

theorem parser_advances (room : Nat) : (Expr.parser room).Advances :=
  joined_advances Tier.all (operand_advances room)

end Expr

namespace Statement

theorem furtherName_moves : furtherName.Moves fun found => found ≠ none := by
  apply Forward.peek.bindMoves
  intro found
  cases found with
  | none => exact .fail _ _
  | some token =>
      dsimp only
      cases token.kind with
      | comma =>
          apply Moves.next.forward.bindMoves
          intro comma
          exact identifier_advances.bind fun _ => .pure _
      | semicolon =>
          apply Moves.next.forward.bindMoves
          intro semicolon
          exact .pure (not_not_intro rfl)
      | _ => exact .misplaced _ _

theorem names_advances : Statement.names.Advances := by
  apply identifier_advances.bind
  intro first
  exact furtherName_moves.forward.many.bind fun _ => .pure _

theorem declaration_advances : declaration.Advances := by
  apply (expect_advances .intWord).bind
  intro word
  exact names_advances.forward.bind fun _ => .pure _

theorem assignment_advances (room : Nat) : (assignment room).Advances := by
  apply identifier_advances.bind
  intro target
  apply (expect_advances .equals).forward.bind
  intro sign
  apply (Expr.parser_advances room).forward.bind
  intro value
  exact (expect_advances .semicolon).forward.bind fun _ => .pure _

theorem enclosed_advances (room : Nat) : (enclosed room).Advances := by
  apply (expect_advances .leftParen).bind
  intro opening
  apply (Expr.parser_advances room).forward.bind
  intro expr
  exact (expect_advances .rightParen).forward.bind fun _ => .pure expr

theorem printing_advances (room : Nat) : (printing room).Advances := by
  apply (expect_advances .printWord).bind
  intro word
  apply (enclosed_advances room).forward.bind
  intro value
  exact (expect_advances .semicolon).forward.bind fun _ => .pure _

variable {block : Parser Block}

theorem loopParser_advances (blocks : block.Forward) (room : Nat) :
    (loopParser block room).Advances := by
  apply (expect_advances .whileWord).bind
  intro word
  apply (enclosed_advances room).forward.bind
  intro condition
  exact blocks.bind fun _ => .pure _

theorem branchParser_advances (blocks : block.Forward) (room : Nat) :
    (branchParser block room).Advances := by
  apply (expect_advances .ifWord).bind
  intro word
  apply (enclosed_advances room).forward.bind
  intro condition
  apply blocks.bind
  intro whenTrue
  apply (Moves.nextMatching _).forward.bind
  intro found
  cases found with
  | some word => exact blocks.bind fun _ => .pure _
  | none => exact .pure _

theorem parserWith_advances (blocks : block.Forward) (room : Nat) :
    (parserWith block room).Advances := by
  apply Forward.peek.bindMoves
  intro found
  cases found with
  | none => exact .fail _ _
  | some token =>
      dsimp only
      cases token.kind with
      | intWord => exact declaration_advances
      | identifier => exact assignment_advances room
      | printWord => exact printing_advances room
      | whileWord => exact loopParser_advances blocks room
      | ifWord => exact branchParser_advances blocks room
      | _ => exact .fail _ _

end Statement

namespace Block

theorem furtherStatement_moves {statement : Parser Statement} (statements : statement.Advances)
    (line : Nat) : (furtherStatement statement line).Moves fun found => found ≠ none := by
  apply (Moves.nextMatching _).bindFound
  · apply Forward.peek.bindMoves
    intro found
    cases found with
    | none => exact .fail _ _
    | some token => exact statements.bind fun _ => .pure _
  · intro closing
    exact .pure none

theorem parser_advances (room : Nat) : (Block.parser room).Advances := by
  induction room with
  | zero => exact (expect_advances .leftBrace).bind fun brace => .fail _ brace.line
  | succ room ih =>
      have statements := Statement.parserWith_advances ih.forward room
      apply (expect_advances .leftBrace).bind
      intro brace
      exact (furtherStatement_moves statements brace.line).forward.many

end Block

theorem Statement.parser_advances (room : Nat) : (Statement.parser room).Advances :=
  parserWith_advances (Block.parser_advances room).forward room

theorem Program.furtherStatement_moves :
    Program.furtherStatement.Moves fun found => found ≠ none := by
  apply Forward.peek.bindMoves
  intro found
  cases found with
  | none => exact .pure (not_not_intro rfl)
  | some token => exact (Statement.parser_advances (roomAt 0)).bind fun _ => .pure _

end TinyImp
