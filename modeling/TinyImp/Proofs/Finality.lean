import TinyImp.Proofs.ErrorLines
import TinyImp.Proofs.Layout
import TinyImp.Proofs.Parsing

/-! # Errors that blame a token are final

What a parser makes of tokens is settled, whatever follows them, unless it has taken them all and
looked for another one. There it either ends in a result, which further tokens may change, or it
fails because the input ends or because of a limit. So an error that blames a token stays the same
if the list is continued, and the beginning of an accepted program is never refused for its tokens.
-/

namespace TinyImp

/-- The fault blames a token, and neither the end of the input nor a limit. -/
def SyntaxFault.Blames : SyntaxFault → Prop
  | .unexpected _ | .notAnIdentifier _ | .notAStatement _ | .literalTooLarge _ => True
  | .expected _ found => Token.describeFound found ≠ "end of input"
  | .unexpectedEnd | .nestingTooDeep => False

theorem Token.describeFound_eq_end {found : Option String}
    (isEnd : describeFound found = "end of input") : found = none := by
  cases found with
  | none => rfl
  | some lexeme =>
      have first := congrArg (fun text => text.toList.head?) isEnd
      simp [describeFound] at first

theorem SyntaxFault.not_blames_iff {fault : SyntaxFault} :
    ¬ fault.Blames ↔ fault.AtEnd ∨ fault = .nestingTooDeep := by
  cases fault with
  | expected kind found =>
      constructor
      · intro blameless
        have isEnd := Token.describeFound_eq_end (Decidable.of_not_not blameless)
        exact .inl (.inr ⟨kind, by rw [isEnd]⟩)
      · intro ended blames
        rcases ended with (impossible | ⟨_, isEnd⟩) | impossible
        · cases impossible
        · cases isEnd
          exact blames rfl
        · cases impossible
  | _ => simp [Blames, AtEnd]

namespace Parser

variable {α β : Type}

/-- The outcome with more tokens behind those that are left. -/
def extendBy (more : List Token) :
    EStateM.Result SyntaxError (List Token) α → EStateM.Result SyntaxError (List Token) α
  | .ok a rest => .ok a (rest ++ more)
  | .error error rest => .error error (rest ++ more)

/-- The outcome may change if more tokens follow: no token is left after a result for which the
    parser looks ahead, or no token is to blame for the error. -/
def IsOpen (ahead : α → Prop) : EStateM.Result SyntaxError (List Token) α → Prop
  | .ok a rest => ahead a ∧ rest = []
  | .error error _ => ¬ error.fault.Blames

/-- Further tokens are left over by the parser, unless its outcome is open. -/
def SteadyAt (ahead : α → Prop) (parser : Parser α) (tokens : List Token) : Prop :=
  ∀ more, parser (tokens ++ more) = extendBy more (parser tokens) ∨ IsOpen ahead (parser tokens)

/-- What the parser makes of any tokens is settled, unless its outcome is open. -/
def Steady (ahead : α → Prop) (parser : Parser α) : Prop :=
  ∀ tokens, parser.SteadyAt ahead tokens

/-- The parser never looks ahead after a result. -/
abbrev Exact (parser : Parser α) : Prop :=
  parser.Steady fun _ => False

/-- The parser may look ahead after any result. -/
abbrev Greedy (parser : Parser α) : Prop :=
  parser.Steady fun _ => True

/-- At the end of the input the parser fails, and no token is to blame. -/
abbrev Awaits (parser : Parser α) : Prop :=
  IsOpen (fun _ => False) (parser [])

theorem IsOpen.bind {first : Parser α} {further : α → Parser β} {ahead : α → Prop}
    {aheadFurther : β → Prop} {tokens : List Token} (isOpen : IsOpen ahead (first tokens))
    (goesOn : ∀ a, ahead a → IsOpen aheadFurther (further a [])) :
    IsOpen aheadFurther ((first >>= further) tokens) := by
  cases done : first tokens with
  | error error rest =>
      rw [done] at isOpen
      rw [bind_of_error done]
      exact isOpen
  | ok a rest =>
      rw [done] at isOpen
      obtain ⟨looks, isEnd⟩ := isOpen
      subst isEnd
      rw [bind_of_ok done]
      exact goesOn a looks

/-- What awaits a token also awaits one if something follows. -/
theorem Awaits.bind {first : Parser α} {further : α → Parser β} {ahead : β → Prop}
    (awaits : first.Awaits) : IsOpen ahead ((first >>= further) []) :=
  IsOpen.bind awaits fun _ impossible => impossible.elim

theorem SteadyAt.bind {first : Parser α} {further : α → Parser β} {ahead : α → Prop}
    {aheadFurther : β → Prop} {tokens : List Token} (here : first.SteadyAt ahead tokens)
    (goesOn : ∀ a rest, first tokens = .ok a rest → (further a).SteadyAt aheadFurther rest)
    (atEnd : ∀ a, ahead a → IsOpen aheadFurther (further a [])) :
    (first >>= further).SteadyAt aheadFurther tokens := by
  intro more
  rcases here more with same | isOpen
  · cases done : first tokens with
    | error error rest =>
        left
        rw [done] at same
        rw [bind_of_error done, bind_of_error same]
        rfl
    | ok a rest =>
        rw [done] at same
        rw [bind_of_ok done, bind_of_ok same]
        exact goesOn a rest done more
  · right
    exact isOpen.bind atEnd

namespace Steady

variable {ahead : α → Prop}

theorem bind {first : Parser α} {further : α → Parser β} {aheadFurther : β → Prop}
    (steady : first.Steady ahead) (goesOn : ∀ a, (further a).Steady aheadFurther)
    (atEnd : ∀ a, ahead a → IsOpen aheadFurther (further a [])) :
    (first >>= further).Steady aheadFurther :=
  fun tokens => (steady tokens).bind (fun a rest _ => goesOn a rest) atEnd

theorem mono {parser : Parser α} {wider : α → Prop} (steady : parser.Steady ahead)
    (looks : ∀ a, ahead a → wider a) : parser.Steady wider := by
  intro tokens more
  rcases steady tokens more with same | isOpen
  · exact .inl same
  · right
    cases done : parser tokens with
    | error error rest =>
        rw [done] at isOpen
        exact isOpen
    | ok a rest =>
        rw [done] at isOpen
        exact ⟨looks a isOpen.1, isOpen.2⟩

theorem pure (a : α) : (Pure.pure a : Parser α).Steady ahead :=
  fun _ _ => .inl rfl

theorem fail (fault : SyntaxFault) (line : Nat) : (Parser.fail fault line : Parser α).Steady ahead :=
  fun _ _ => .inl rfl

theorem nextMatching (choose : Token → Option α) :
    (Parser.nextMatching choose).Steady fun found => found = none := by
  intro tokens more
  cases tokens with
  | nil => exact .inr ⟨rfl, rfl⟩
  | cons token rest =>
      left
      simp only [Parser.nextMatching, List.cons_append]
      cases choose token <;> rfl

theorem nextIf (kind : Token.Kind) : (Parser.nextIf kind).Steady fun found => found = none :=
  nextMatching _

theorem next : Parser.next.Steady fun found => found = none := by
  intro tokens more
  cases tokens with
  | nil => exact .inr ⟨rfl, rfl⟩
  | cons token rest => exact .inl rfl

/-- A parser that looks at the next token first has that token in front of it. -/
theorem peek {further : Option Token → Parser α} (atEnd : IsOpen ahead (further none []))
    (goesOn : ∀ token rest, (further (some token)).SteadyAt ahead (token :: rest)) :
    (Parser.peek >>= further).Steady ahead := by
  intro tokens more
  cases tokens with
  | nil => exact .inr atEnd
  | cons token rest => exact goesOn token rest more

end Steady

theorem SteadyAt.next {ahead : α → Prop} {further : Option Token → Parser α} {token : Token}
    {rest : List Token} (goesOn : (further (some token)).SteadyAt ahead rest) :
    (Parser.next >>= further).SteadyAt ahead (token :: rest) :=
  goesOn

theorem Exact.bind {first : Parser α} {further : α → Parser β} {ahead : β → Prop}
    (exact : first.Exact) (goesOn : ∀ a, (further a).Steady ahead) :
    (first >>= further).Steady ahead :=
  Steady.bind exact goesOn fun _ impossible => impossible.elim

/-- What follows a result has to await a token if the parser may look ahead there. -/
theorem Greedy.bind {first : Parser α} {further : α → Parser β} {ahead : β → Prop}
    (greedy : first.Greedy) (goesOn : ∀ a, (further a).Steady ahead)
    (atEnd : ∀ a, IsOpen ahead (further a [])) : (first >>= further).Steady ahead :=
  Steady.bind greedy goesOn fun a _ => atEnd a

theorem Exact.greedy {parser : Parser α} (exact : parser.Exact) : parser.Greedy :=
  exact.mono fun _ impossible => impossible.elim

theorem misplaced_steady {ahead : α → Prop} (kind : Token.Kind) (found : Option Token) :
    (misplaced kind found : Parser α).Steady ahead := by
  cases found with
  | none => exact .fail _ _
  | some token => exact .fail _ _

theorem expect_awaits (kind : Token.Kind) : (expect kind).Awaits :=
  fun blames => blames rfl

theorem expect_exact (kind : Token.Kind) : (expect kind).Exact := by
  apply (Steady.nextIf kind).bind
  · intro found
    cases found with
    | some token => exact .pure token
    | none =>
        apply Steady.peek
        · exact fun blames => blames rfl
        · intro token rest
          exact misplaced_steady kind (some token) _
  · intro found isNone
    subst isNone
    exact fun blames => blames rfl

theorem identifier_exact : identifier.Exact := by
  apply Steady.next.bind
  · intro found
    cases found with
    | none => exact .fail _ _
    | some token =>
        dsimp only
        split
        · exact .pure token
        · exact .fail _ _
  · intro found isNone
    subst isNone
    exact id

/-- A loop is steady if its rounds are. It looks ahead after its results if it does so after its last
    round, or after another one that may as well be the last. -/
theorem Steady.many {item : Parser (Option α)} {aheadItem : Option α → Prop} {ahead : Prop}
    (items : item.Steady aheadItem)
    (shrinks : ∀ tokens a rest, item tokens = .ok (some a) rest → rest.length < tokens.length)
    (ended : aheadItem none → ahead)
    (atEnd : IsOpen (fun found => ahead ∧ found = none) (item [])) :
    (Parser.many item).Steady fun _ => ahead := by
  have manyAtEnd : IsOpen (fun _ => ahead) (Parser.many item []) := by
    rw [many_eq shrinks]
    apply atEnd.bind
    intro found ⟨looks, isNone⟩
    subst isNone
    exact ⟨looks, rfl⟩
  intro tokens
  -- Each round but the last takes a token.
  induction size : tokens.length using Nat.strongRecOn generalizing tokens with
  | ind length ih =>
      rw [many_eq shrinks]
      apply (items tokens).bind
      · intro found rest taken
        cases found with
        | none => exact Steady.pure [] rest
        | some a =>
            have shorter : rest.length < length := size ▸ shrinks tokens a rest taken
            apply (ih rest.length shorter rest rfl).bind
            · intro others left _
              exact Steady.pure _ left
            · intro others looks
              exact ⟨looks, rfl⟩
      · intro found looks
        cases found with
        | none => exact ⟨ended looks, rfl⟩
        | some a =>
            apply manyAtEnd.bind
            intro others looks
            exact ⟨looks, rfl⟩

end Parser

open TinyImp.Parser

namespace Expr

variable {operand : Parser Expr} {inner : Nat → Parser Expr}

theorem chainWithin_atEnd (tier : Tier) (operand : Parser Expr) (rounds : Nat) (left : Expr) :
    IsOpen (fun _ => True) (chainWithin tier operand rounds left []) := by
  cases rounds with
  | zero => exact ⟨trivial, rfl⟩
  | succ rounds => exact ⟨trivial, rfl⟩

theorem chainWithin_greedy (tier : Tier) (operands : operand.Greedy) (rounds : Nat) (left : Expr) :
    (chainWithin tier operand rounds left).Greedy := by
  induction rounds generalizing left with
  | zero => exact .pure left
  | succ rounds ih =>
      apply (Steady.nextMatching (operatorOf tier)).bind
      · intro found
        cases found with
        | none => exact .pure left
        | some found =>
            apply operands.bind
            · intro right
              dsimp only
              split
              · exact ih _
              · exact .fail _ _
            · intro right
              by_cases low : (Expr.binary found.1 left right found.2).height ≤ maxHeight
              · rw [if_pos low]
                exact chainWithin_atEnd tier operand rounds _
              · rw [if_neg low]
                exact id
      · intro found isNone
        subst isNone
        exact ⟨trivial, rfl⟩

theorem joined_greedy (tiers : List Tier) (operands : operand.Greedy) :
    (joined tiers operand).Greedy := by
  induction tiers with
  | nil => exact operands
  | cons tier tiers ih =>
      exact ih.bind (chainWithin_greedy tier ih maxHeight)
        (chainWithin_atEnd tier (joined tiers operand) maxHeight)

theorem primary_awaits (inner : Nat → Parser Expr) : (primary inner).Awaits :=
  id

theorem primary_exact (inners : ∀ line, (inner line).Exact) : (primary inner).Exact := by
  apply Steady.next.bind
  · intro found
    cases found with
    | none => exact .fail _ _
    | some token =>
        dsimp only
        cases token.kind with
        | leftParen =>
            apply (joined_greedy Tier.all (inners token.line).greedy).bind
            · intro expr
              exact (expect_exact .rightParen).bind fun _ => .pure expr
            · intro expr
              exact (expect_awaits .rightParen).bind
        | number =>
            dsimp only
            cases Value.ofDecimal? token.lexeme with
            | none => exact .fail _ _
            | some value => exact .pure _
        | identifier => exact .pure _
        | _ => exact .fail _ _
  · intro found isNone
    subst isNone
    exact id

theorem prefixed_exact (inners : ∀ line, (inner line).Exact)
    (awaits : ∀ line, (inner line).Awaits) : (prefixed inner).Exact := by
  apply (Steady.nextMatching _).bind
  · intro found
    cases found with
    | none => exact primary_exact inners
    | some sign =>
        obtain ⟨op, line⟩ := sign
        have under : ∀ op, (inner line >>= fun operand => pure (Expr.unary op operand line)).Exact :=
          fun op => (inners line).bind fun _ => .pure _
        cases op with
        | not => exact under .not
        | negate =>
            apply (Steady.nextMatching leastMagnitude).bind
            · intro magnitude
              cases magnitude with
              | some numeralLine => exact .pure _
              | none => exact under .negate
            · intro magnitude isNone
              subst isNone
              exact (awaits line).bind
  · intro found isNone
    subst isNone
    exact primary_awaits inner

theorem operand_awaits (room : Nat) : (Expr.operand room).Awaits := by
  cases room with
  | zero => exact id
  | succ room => exact id

/-- Inside a level that may not be opened the limit is to blame, and no token. -/
theorem operand_exact (room : Nat) : (Expr.operand room).Exact := by
  induction room with
  | zero => exact prefixed_exact (fun line => .fail _ line) fun _ => id
  | succ room ih => exact prefixed_exact (fun _ => ih) fun _ => operand_awaits room

theorem parser_greedy (room : Nat) : (Expr.parser room).Greedy :=
  joined_greedy Tier.all (operand_exact room).greedy

end Expr

namespace Statement

theorem furtherName_exact : furtherName.Exact := by
  apply Steady.peek
  · exact id
  · intro token rest
    dsimp only
    cases token.kind with
    | comma =>
        apply SteadyAt.next
        exact identifier_exact.bind (fun _ => .pure _) rest
    | semicolon =>
        apply SteadyAt.next
        exact Steady.pure none rest
    | _ => exact misplaced_steady .semicolon (some token) _

theorem names_exact : Statement.names.Exact := by
  have shrinks : ∀ tokens name rest, furtherName tokens = .ok (some name) rest →
      rest.length < tokens.length := by
    intro tokens name rest taken
    obtain ⟨comma, word, rfl, -⟩ := furtherName_eq_ok_some_iff.mp taken
    simp only [List.length_cons]
    omega
  apply identifier_exact.bind
  intro first
  exact Exact.bind (furtherName_exact.many shrinks id id) fun _ => .pure _

theorem enclosed_exact (room : Nat) : (enclosed room).Exact := by
  apply (expect_exact .leftParen).bind
  intro opening
  apply (Expr.parser_greedy room).bind
  · intro expr
    exact (expect_exact .rightParen).bind fun _ => .pure expr
  · intro expr
    exact (expect_awaits .rightParen).bind

theorem declaration_exact : declaration.Exact := by
  apply (expect_exact .intWord).bind
  intro word
  exact names_exact.bind fun _ => .pure _

theorem assignment_exact (room : Nat) : (assignment room).Exact := by
  apply identifier_exact.bind
  intro target
  apply (expect_exact .equals).bind
  intro sign
  apply (Expr.parser_greedy room).bind
  · intro value
    exact (expect_exact .semicolon).bind fun _ => .pure _
  · intro value
    exact (expect_awaits .semicolon).bind

theorem printing_exact (room : Nat) : (printing room).Exact := by
  apply (expect_exact .printWord).bind
  intro word
  apply (enclosed_exact room).bind
  intro value
  exact (expect_exact .semicolon).bind fun _ => .pure _

variable {block : Parser Block}

theorem loopParser_exact (blocks : block.Exact) (room : Nat) : (loopParser block room).Exact := by
  apply (expect_exact .whileWord).bind
  intro word
  apply (enclosed_exact room).bind
  intro condition
  exact blocks.bind fun _ => .pure _

/-- After its first block a choice looks for an `else`. -/
theorem branchParser_greedy (blocks : block.Exact) (room : Nat) :
    (branchParser block room).Greedy := by
  apply (expect_exact .ifWord).bind
  intro word
  apply (enclosed_exact room).bind
  intro condition
  apply blocks.bind
  intro whenTrue
  apply (Steady.nextIf .elseWord).bind
  · intro found
    cases found with
    | some word => exact blocks.bind fun _ => .pure _
    | none => exact .pure _
  · intro found isNone
    subst isNone
    exact ⟨trivial, rfl⟩

theorem parserWith_greedy (blocks : block.Exact) (room : Nat) :
    (parserWith block room).Greedy := by
  apply Steady.peek
  · exact id
  · intro token rest
    dsimp only
    cases token.kind with
    | intWord => exact declaration_exact.greedy _
    | identifier => exact (assignment_exact room).greedy _
    | printWord => exact (printing_exact room).greedy _
    | whileWord => exact (loopParser_exact blocks room).greedy _
    | ifWord => exact branchParser_greedy blocks room _
    | _ => exact Steady.fail _ _ _

end Statement

namespace Block

/-- After a statement a block looks for another one, whereas its brace ends it. -/
theorem furtherStatement_steady {statement : Parser Statement} (statements : statement.Greedy)
    (line : Nat) : (furtherStatement statement line).Steady fun found => found.isSome := by
  have another : (statement >>= fun first => pure (some first)).Steady fun found => found.isSome :=
    statements.bind (fun _ => .pure _) fun _ => ⟨rfl, rfl⟩
  apply (Steady.nextIf .rightBrace).bind
  · intro found
    cases found with
    | some closing => exact .pure none
    | none =>
        apply Steady.peek
        · exact id
        · intro token rest
          exact another (token :: rest)
  · intro found isNone
    subst isNone
    exact id

theorem parser_exact (depth : Nat) : (Block.parser (roomAt depth)).Exact := by
  generalize left : roomAt depth = room
  induction room generalizing depth with
  | zero => exact (expect_exact .leftBrace).bind fun brace => .fail _ brace.line
  | succ room ih =>
      have deeper : roomAt (depth + 1) = room := by
        unfold roomAt at left ⊢
        omega
      have reads := Statement.parserWith_reads (Block.parser_reads (depth + 1))
      rw [deeper] at reads
      have statements := Statement.parserWith_greedy (ih (depth + 1) deeper) room
      apply (expect_exact .leftBrace).bind
      intro brace
      have shrinks : ∀ tokens first rest,
          furtherStatement (Statement.parserWith (parser room) room) brace.line tokens =
            .ok (some first) rest → rest.length < tokens.length :=
        shrinks_of_reads reads fun _ _ _ => furtherStatement_eq_ok_some_iff reads
      exact (furtherStatement_steady statements brace.line).many shrinks (by simp) id

end Block

namespace Program

theorem parser_greedy : Program.parser.Greedy := by
  have statements : (Statement.parser (roomAt 0)).Greedy :=
    Statement.parserWith_greedy (Block.parser_exact 0) (roomAt 0)
  have another : (Statement.parser (roomAt 0) >>= fun first => pure (some first)).Greedy :=
    statements.bind (fun _ => .pure _) fun _ => ⟨trivial, rfl⟩
  have items : Program.furtherStatement.Greedy := by
    apply Steady.peek
    · exact ⟨trivial, rfl⟩
    · intro token rest
      exact another (token :: rest)
  have shrinks := Block.shrinks_of_reads (Statement.parser_reads 0) fun _ _ _ =>
    Program.furtherStatement_eq_ok_some_iff
  exact items.many shrinks id ⟨⟨trivial, rfl⟩, rfl⟩

/-- An error of the parser that blames a token stays if the list is continued. -/
theorem parser_error_append {tokens rest : List Token} {error : SyntaxError}
    (failed : Program.parser tokens = .error error rest) (blames : error.fault.Blames)
    (more : List Token) : Program.parser (tokens ++ more) = .error error (rest ++ more) := by
  rcases parser_greedy tokens more with same | isOpen
  · rw [failed] at same
    exact same
  · rw [failed] at isOpen
    exact absurd blames isOpen

/-- An error that blames a token is on the line of a token. -/
theorem parser_error_line {tokens rest : List Token} {error : SyntaxError}
    (lines : ∀ token ∈ tokens, 1 ≤ token.line) (failed : Program.parser tokens = .error error rest)
    (blames : error.fault.Blames) : 1 ≤ error.line := by
  have ends := Program.parser_agrees tokens tokens (Token.parallel_self lines)
  rw [failed] at ends
  cases ends with
  | error parallel =>
      cases parallel with
      | located related => exact related.line.2
      | atEnd atEnd => exact absurd blames (SyntaxFault.not_blames_iff.mpr (.inl atEnd))

theorem ofTokens_eq_error_iff {tokens : List Token} {error : SyntaxError} :
    ofTokens tokens = .error error ↔
      ∃ found rest, Program.parser tokens = .error found rest ∧ error = found.settle tokens := by
  unfold ofTokens
  cases Program.parser tokens with
  | ok program rest => simp
  | error found rest => simp [eq_comm]

end Program

theorem SyntaxError.settle_of_line {error : SyntaxError} (known : 1 ≤ error.line)
    (tokens : List Token) : error.settle tokens = error := by
  unfold SyntaxError.settle
  split
  · cases known
  · cases known
  · rfl

/-- If a token list is refused with an error that blames a token, every longer list is refused with the
    same error. So the beginning of an accepted list is refused for no token of its own, only because
    it ends too early or for the limits on nesting. -/
theorem blaming_errors_are_final :
    (∀ (tokens more : List Token) (error : SyntaxError),
      (∀ token ∈ tokens, 1 ≤ token.line) → Program.ofTokens tokens = .error error →
      error.fault.Blames → Program.ofTokens (tokens ++ more) = .error error) ∧
    (∀ (tokens more : List Token) (program : Program) (error : SyntaxError),
      Program.ofTokens (tokens ++ more) = .ok program → Program.ofTokens tokens = .error error →
      error.fault = .unexpectedEnd ∨ (∃ kind, error.fault = .expected kind none) ∨
        error.fault = .nestingTooDeep) := by
  constructor
  · intro tokens more error lines refused blames
    obtain ⟨found, rest, failed, isError⟩ := Program.ofTokens_eq_error_iff.mp refused
    rw [isError, SyntaxError.settle_fault] at blames
    have known := Program.parser_error_line lines failed blames
    rw [isError, SyntaxError.settle_of_line known]
    exact Program.ofTokens_eq_error_iff.mpr ⟨found, rest ++ more,
      Program.parser_error_append failed blames more,
      (SyntaxError.settle_of_line known (tokens ++ more)).symm⟩
  · intro tokens more program error accepted refused
    obtain ⟨found, rest, failed, isError⟩ := Program.ofTokens_eq_error_iff.mp refused
    have blameless : ¬ error.fault.Blames := by
      intro blames
      rw [isError, SyntaxError.settle_fault] at blames
      have longer := Program.ofTokens_eq_error_iff.mpr
        ⟨found, _, Program.parser_error_append failed blames more, rfl⟩
      rw [accepted] at longer
      cases longer
    rw [← or_assoc]
    exact SyntaxFault.not_blames_iff.mp blameless

/-- The second numeral of `print(1 2` is refused whatever follows it. The beginning `x =` of `x = 1;`
    is refused only because it ends. -/
theorem second_numeral_is_refused_for_good :
    let tokens : List Token :=
      [⟨⟨1, 1⟩, .printWord, "print"⟩, ⟨⟨1, 6⟩, .leftParen, "("⟩, ⟨⟨1, 7⟩, .number, "1"⟩,
        ⟨⟨2, 1⟩, .number, "2"⟩]
    let more : List Token := [⟨⟨3, 1⟩, .rightParen, ")"⟩, ⟨⟨3, 2⟩, .semicolon, ";"⟩]
    let error : SyntaxError := { fault := .expected .rightParen (some "2"), line := 2 }
    let start : List Token := [⟨⟨1, 1⟩, .identifier, "x"⟩, ⟨⟨1, 3⟩, .equals, "="⟩]
    let ending : List Token := [⟨⟨1, 5⟩, .number, "1"⟩, ⟨⟨1, 6⟩, .semicolon, ";"⟩]
    Program.ofTokens tokens = .error error ∧ Program.ofTokens (tokens ++ more) = .error error ∧
    Program.ofTokens (start ++ ending) = .ok [.assign "x" (.const 1 1) 1] ∧
    ∃ refused, Program.ofTokens start = .error refused ∧ (refused.fault = .unexpectedEnd ∨
      (∃ kind, refused.fault = .expected kind none) ∨ refused.fault = .nestingTooDeep) := by
  intro tokens more error start ending
  have refused : Program.ofTokens tokens = .error error := rfl
  have lines : ∀ token ∈ tokens, 1 ≤ token.line := by simp [tokens]
  have blames : error.fault.Blames := by
    intro isEnd
    cases Token.describeFound_eq_end isEnd
  have accepted : Program.ofTokens (start ++ ending) = .ok [.assign "x" (.const 1 1) 1] := rfl
  have early : Program.ofTokens start = .error { fault := .unexpectedEnd, line := 1 } := rfl
  exact ⟨refused, blaming_errors_are_final.1 tokens more error lines refused blames, accepted, _,
    early, blaming_errors_are_final.2 start ending _ _ accepted early⟩

end TinyImp
