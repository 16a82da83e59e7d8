import TinyImp.Proofs.Lines
import TinyImp.Statement.Parser

/-! # Parsers copy lines

No parser looks at the line of a token: what it builds and what it refuses depends on kinds and
spellings only, and each line it gives is that of a token it has taken or looked at. At the end of
the input there is no such token. The faults that can arise there are on an unknown line at first,
which a parser of the whole input replaces.
-/

namespace TinyImp

open TinyImp.Parser (unknownLine)

/-- The faults that arise at the end of the input. -/
def SyntaxFault.AtEnd (fault : SyntaxFault) : Prop :=
  fault = .unexpectedEnd ∨ ∃ kind, fault = .expected kind none

/-- The same fault on corresponding lines, or for both at the end of the input. -/
inductive SyntaxError.Parallel (lines : Nat → Nat → Prop) : SyntaxError → SyntaxError → Prop where
  | located {error error' : SyntaxError} :
      Located.Parallel lines error error' →
      Parallel lines error error'
  | atEnd {fault : SyntaxFault} :
      fault.AtEnd →
      Parallel lines { fault, line := unknownLine } { fault, line := unknownLine }

variable {lines : Nat → Nat → Prop}

theorem SyntaxError.Parallel.fault {error error' : SyntaxError}
    (parallel : SyntaxError.Parallel lines error error') : error.fault = error'.fault := by
  cases parallel with
  | located related => exact related.fault
  | atEnd => rfl

namespace Parser

variable {α α' β β' : Type} {results : α → α' → Prop} {values : β → β' → Prop}

/-- Corresponding results with corresponding tokens left, or corresponding errors. -/
inductive Ends (lines : Nat → Nat → Prop) (results : α → α' → Prop) :
    EStateM.Result SyntaxError (List Token) α → EStateM.Result SyntaxError (List Token) α' →
      Prop where
  | ok {a : α} {a' : α'} {rest rest' : List Token} :
      results a a' →
      List.Forall₂ (Token.Parallel lines) rest rest' →
      Ends lines results (.ok a rest) (.ok a' rest')
  | error {error error' : SyntaxError} {rest rest' : List Token} :
      SyntaxError.Parallel lines error error' →
      Ends lines results (.error error rest) (.error error' rest')

/-- The parsers end alike on tokens that differ in their positions only. -/
def Agree (lines : Nat → Nat → Prop) (results : α → α' → Prop) (left : Parser α)
    (right : Parser α') : Prop :=
  ∀ tokens tokens', List.Forall₂ (Token.Parallel lines) tokens tokens' →
    Ends lines results (left tokens) (right tokens')

namespace Agree

theorem pure {a : α} {a' : α'} (related : results a a') :
    Agree lines results (Pure.pure a) (Pure.pure a') :=
  fun _ _ tokens => .ok related tokens

theorem bind {first : Parser α} {first' : Parser α'} {further : α → Parser β}
    {further' : α' → Parser β'} (parallel : Agree lines results first first')
    (goesOn : ∀ a a', results a a' → Agree lines values (further a) (further' a')) :
    Agree lines values (first >>= further) (first' >>= further') := by
  intro tokens tokens' related
  show Ends lines values (EStateM.bind first further tokens) (EStateM.bind first' further' tokens')
  unfold EStateM.bind
  have ends := parallel tokens tokens' related
  generalize first tokens = result at ends
  generalize first' tokens' = result' at ends
  cases ends with
  | ok related rest => exact goesOn _ _ related _ _ rest
  | error related => exact .error related

theorem fail {line line' : Nat} (corresponds : lines line line') (fault : SyntaxFault) :
    Agree lines results (Parser.fail fault line) (Parser.fail fault line') :=
  fun _ _ _ => .error (.located ⟨rfl, corresponds⟩)

theorem fail_atEnd {fault : SyntaxFault} (atEnd : fault.AtEnd) :
    Agree lines results (Parser.fail fault unknownLine) (Parser.fail fault unknownLine) :=
  fun _ _ _ => .error (.atEnd atEnd)

theorem peek : Agree lines (Option.Rel (Token.Parallel lines)) Parser.peek Parser.peek := by
  intro tokens tokens' related
  cases related with
  | nil => exact .ok .none .nil
  | cons first rest => exact .ok (.some first) (.cons first rest)

theorem next : Agree lines (Option.Rel (Token.Parallel lines)) Parser.next Parser.next := by
  intro tokens tokens' related
  cases related with
  | nil => exact .ok .none .nil
  | cons first rest => exact .ok (.some first) rest

theorem nextMatching {choose : Token → Option α} {choose' : Token → Option α'}
    (agree : ∀ token token', Token.Parallel lines token token' →
      Option.Rel results (choose token) (choose' token')) :
    Agree lines (Option.Rel results) (Parser.nextMatching choose)
      (Parser.nextMatching choose') := by
  intro tokens tokens' related
  cases related with
  | nil => exact .ok .none .nil
  | @cons token token' _ _ first rest =>
      simp only [Parser.nextMatching]
      have chosen := agree token token' first
      generalize choose token = choice at chosen
      generalize choose' token' = choice' at chosen
      cases chosen with
      | none => exact .ok .none (.cons first rest)
      | some chosen => exact .ok (.some chosen) rest

theorem nextIf (kind : Token.Kind) :
    Agree lines (Option.Rel (Token.Parallel lines)) (Parser.nextIf kind)
      (Parser.nextIf kind) := by
  refine nextMatching fun token token' related => ?_
  rw [related.kind]
  split
  · exact .some related
  · exact .none

theorem misplaced {found found' : Option Token} (kind : Token.Kind)
    (related : Option.Rel (Token.Parallel lines) found found') :
    Agree lines results (Parser.misplaced kind found) (Parser.misplaced kind found') := by
  cases related with
  | none => exact fail_atEnd (.inr ⟨kind, rfl⟩)
  | some related =>
      simp only [Parser.misplaced, related.lexeme]
      exact fail related.line _

theorem expect (kind : Token.Kind) :
    Agree lines (Token.Parallel lines) (Parser.expect kind) (Parser.expect kind) := by
  refine (nextIf kind).bind fun found found' related => ?_
  cases related with
  | some related => exact pure related
  | none => exact peek.bind fun _ _ related => misplaced kind related

theorem identifier :
    Agree lines (Token.Parallel lines) Parser.identifier Parser.identifier := by
  refine next.bind fun found found' related => ?_
  cases related with
  | none => exact fail_atEnd (.inl rfl)
  | some related =>
      simp only [related.kind, related.lexeme]
      split
      · exact pure related
      · exact fail related.line _

variable {item : Parser (Option α)} {item' : Parser (Option α')}

theorem manyWithin (items : Agree lines (Option.Rel results) item item') (rounds : Nat) :
    Agree lines (List.Forall₂ results) (Parser.manyWithin item rounds)
      (Parser.manyWithin item' rounds) := by
  induction rounds with
  | zero => exact pure .nil
  | succ rounds ih =>
      refine items.bind fun found found' related => ?_
      cases related with
      | none => exact pure .nil
      | some first => exact ih.bind fun _ _ others => pure (.cons first others)

theorem many (items : Agree lines (Option.Rel results) item item') :
    Agree lines (List.Forall₂ results) (Parser.many item) (Parser.many item') := by
  intro tokens tokens' related
  have rounds := items.manyWithin (tokens.length + 1) tokens tokens' related
  nth_rewrite 2 [related.length_eq] at rounds
  exact rounds

end Agree

end Parser

open TinyImp.Parser (Agree)

namespace Expr

theorem operatorOf_parallel (tier : Tier) {token token' : Token}
    (related : token.Parallel lines token') :
    Option.Rel (fun chosen chosen' => chosen.1 = chosen'.1 ∧ lines chosen.2 chosen'.2)
      (operatorOf tier token) (operatorOf tier token') := by
  simp only [operatorOf, related.kind]
  split
  · split
    · exact .some ⟨rfl, related.line⟩
    · exact .none
  · exact .none

theorem leastMagnitude_parallel {token token' : Token} (related : token.Parallel lines token') :
    Option.Rel lines (leastMagnitude token) (leastMagnitude token') := by
  simp only [leastMagnitude, related.kind, related.lexeme]
  split
  · exact .some related.line
  · exact .none

variable {operand operand' : Parser Expr} {inner inner' : Nat → Parser Expr}

theorem chainWithin_agrees (tier : Tier)
    (operands : Agree lines (Expr.Parallel lines) operand operand') (rounds : Nat)
    {left left' : Expr} (related : left.Parallel lines left') :
    Agree lines (Expr.Parallel lines) (chainWithin tier operand rounds left)
      (chainWithin tier operand' rounds left') := by
  induction rounds generalizing left left' with
  | zero => exact .pure related
  | succ rounds ih =>
      refine Agree.bind (.nextMatching fun _ _ => operatorOf_parallel tier) ?_
      intro found found' chosen
      cases chosen with
      | none => exact .pure related
      | @some found found' chosen =>
          obtain ⟨op, line⟩ := found
          obtain ⟨_, line'⟩ := found'
          obtain ⟨rfl, corresponds⟩ := chosen
          refine operands.bind fun right right' relatedRight => ?_
          have whole : (Expr.binary op left right line).Parallel lines
              (.binary op left' right' line') := .binary related relatedRight corresponds
          simp only [whole.height]
          split
          · exact ih whole
          · exact .fail corresponds _

theorem joined_agrees (tiers : List Tier)
    (operands : Agree lines (Expr.Parallel lines) operand operand') :
    Agree lines (Expr.Parallel lines) (joined tiers operand) (joined tiers operand') := by
  induction tiers with
  | nil => exact operands
  | cons tier tiers ih => exact ih.bind fun _ _ left => chainWithin_agrees tier ih maxHeight left

/-- Parsers for the inside of levels that are opened on corresponding lines. -/
def InnerAgree (lines : Nat → Nat → Prop) (inner inner' : Nat → Parser Expr) : Prop :=
  ∀ line line', lines line line' → Agree lines (Expr.Parallel lines) (inner line) (inner' line')

theorem primary_agrees (inners : InnerAgree lines inner inner') :
    Agree lines (Expr.Parallel lines) (primary inner) (primary inner') := by
  refine Agree.next.bind fun found found' related => ?_
  cases related with
  | none => exact .fail_atEnd (.inl rfl)
  | @some token token' related =>
      simp only [related.kind, related.lexeme]
      cases token'.kind with
      | leftParen =>
          refine (joined_agrees Tier.all (inners _ _ related.line)).bind fun _ _ expr => ?_
          exact (Agree.expect .rightParen).bind fun _ _ _ => .pure expr
      | number =>
          cases Value.ofDecimal? token'.lexeme with
          | none => exact .fail related.line _
          | some value => exact .pure (.const related.line)
      | identifier => exact .pure (.var related.line)
      | _ => exact .fail related.line _

theorem prefixed_agrees (inners : InnerAgree lines inner inner') :
    Agree lines (Expr.Parallel lines) (prefixed inner) (prefixed inner') := by
  have signs : ∀ token token' : Token, token.Parallel lines token' →
      Option.Rel (fun chosen chosen' => chosen.1 = chosen'.1 ∧ lines chosen.2 chosen'.2)
        ((UnaryOp.ofKind? token.kind).map (·, token.line))
        ((UnaryOp.ofKind? token'.kind).map (·, token'.line)) := by
    intro token token' related
    rw [related.kind]
    cases UnaryOp.ofKind? token'.kind with
    | none => exact .none
    | some op => exact .some ⟨rfl, related.line⟩
  refine Agree.bind (.nextMatching signs) fun found found' chosen => ?_
  cases chosen with
  | none => exact primary_agrees inners
  | @some found found' chosen =>
      obtain ⟨op, line⟩ := found
      obtain ⟨_, line'⟩ := found'
      obtain ⟨rfl, corresponds⟩ := chosen
      cases op with
      | negate =>
          refine Agree.bind (.nextMatching fun _ _ => leastMagnitude_parallel) ?_
          intro magnitude magnitude' found
          cases found with
          | some atNumeral => exact .pure (.const atNumeral)
          | none =>
              refine (inners _ _ corresponds).bind fun _ _ operand => ?_
              exact .pure (.unary operand corresponds)
      | not =>
          refine (inners _ _ corresponds).bind fun _ _ operand => ?_
          exact .pure (.unary operand corresponds)

theorem operand_agrees (room : Nat) :
    Agree lines (Expr.Parallel lines) (Expr.operand room) (Expr.operand room) := by
  induction room with
  | zero => exact prefixed_agrees fun _ _ corresponds => .fail corresponds _
  | succ room ih => exact prefixed_agrees fun _ _ _ => ih

theorem parser_agrees (room : Nat) :
    Agree lines (Expr.Parallel lines) (Expr.parser room) (Expr.parser room) :=
  joined_agrees Tier.all (operand_agrees room)

end Expr

namespace Statement

theorem furtherName_agrees : Agree lines (Option.Rel Eq) furtherName furtherName := by
  refine Agree.peek.bind fun found found' related => ?_
  cases related with
  | none => exact .fail_atEnd (.inl rfl)
  | @some token token' related =>
      simp only [related.kind]
      cases token'.kind with
      | comma =>
          refine Agree.next.bind fun _ _ _ => ?_
          exact Agree.identifier.bind fun _ _ name => .pure (.some name.lexeme)
      | semicolon => exact Agree.next.bind fun _ _ _ => .pure .none
      | _ => exact .misplaced _ (.some related)

theorem names_agrees : Agree lines Eq Statement.names Statement.names := by
  refine Agree.identifier.bind fun first first' related => ?_
  refine furtherName_agrees.many.bind fun others others' same => ?_
  rw [List.forall₂_eq_eq_eq] at same
  rw [related.lexeme, same]
  exact .pure rfl

theorem enclosed_agrees (room : Nat) :
    Agree lines (Expr.Parallel lines) (enclosed room) (enclosed room) := by
  refine (Agree.expect .leftParen).bind fun _ _ _ => ?_
  refine (Expr.parser_agrees room).bind fun _ _ expr => ?_
  exact (Agree.expect .rightParen).bind fun _ _ _ => .pure expr

theorem declaration_agrees :
    Agree lines (Statement.Parallel lines) declaration declaration := by
  refine (Agree.expect .intWord).bind fun word word' related => ?_
  refine names_agrees.bind fun names names' same => ?_
  subst same
  exact .pure (.declare related.line)

theorem assignment_agrees (room : Nat) :
    Agree lines (Statement.Parallel lines) (assignment room) (assignment room) := by
  refine Agree.identifier.bind fun target target' related => ?_
  refine (Agree.expect .equals).bind fun _ _ _ => ?_
  refine (Expr.parser_agrees room).bind fun _ _ value => ?_
  refine (Agree.expect .semicolon).bind fun _ _ _ => ?_
  rw [related.lexeme]
  exact .pure (.assign value related.line)

theorem printing_agrees (room : Nat) :
    Agree lines (Statement.Parallel lines) (printing room) (printing room) := by
  refine (Agree.expect .printWord).bind fun _ _ word => ?_
  refine (enclosed_agrees room).bind fun _ _ value => ?_
  exact (Agree.expect .semicolon).bind fun _ _ _ => .pure (.print value word.line)

section Blocks

variable {block block' : Parser Block}
  (blocks : Agree lines (Block.Parallel lines) block block') (room : Nat)
include blocks

theorem loopParser_agrees :
    Agree lines (Statement.Parallel lines) (loopParser block room) (loopParser block' room) := by
  refine (Agree.expect .whileWord).bind fun _ _ word => ?_
  refine (enclosed_agrees room).bind fun _ _ condition => ?_
  exact blocks.bind fun _ _ body => .pure (.loop condition body word.line)

theorem branchParser_agrees :
    Agree lines (Statement.Parallel lines) (branchParser block room)
      (branchParser block' room) := by
  refine (Agree.expect .ifWord).bind fun _ _ word => ?_
  refine (enclosed_agrees room).bind fun _ _ condition => ?_
  refine blocks.bind fun _ _ whenTrue => ?_
  refine (Agree.nextIf .elseWord).bind fun _ _ found => ?_
  cases found with
  | some =>
      refine blocks.bind fun _ _ whenFalse => ?_
      exact .pure (.branch condition whenTrue whenFalse word.line)
  | none => exact .pure (.branch condition whenTrue .nil word.line)

theorem parserWith_agrees :
    Agree lines (Statement.Parallel lines) (parserWith block room) (parserWith block' room) := by
  refine Agree.peek.bind fun found found' related => ?_
  cases related with
  | none => exact .fail_atEnd (.inl rfl)
  | @some token token' related =>
      simp only [related.kind, related.lexeme]
      cases token'.kind with
      | intWord => exact declaration_agrees
      | identifier => exact assignment_agrees room
      | printWord => exact printing_agrees room
      | whileWord => exact loopParser_agrees blocks room
      | ifWord => exact branchParser_agrees blocks room
      | _ => exact .fail related.line _

end Blocks

end Statement

namespace Block

theorem furtherStatement_agrees {statement statement' : Parser Statement} {line line' : Nat}
    (statements : Agree lines (Statement.Parallel lines) statement statement')
    (corresponds : lines line line') :
    Agree lines (Option.Rel (Statement.Parallel lines)) (furtherStatement statement line)
      (furtherStatement statement' line') := by
  refine (Agree.nextIf .rightBrace).bind fun _ _ found => ?_
  cases found with
  | some => exact .pure .none
  | none =>
      refine Agree.peek.bind fun _ _ found => ?_
      cases found with
      | none => exact .fail corresponds _
      | some => exact statements.bind fun _ _ first => .pure (.some first)

theorem parser_agrees (room : Nat) :
    Agree lines (Block.Parallel lines) (Block.parser room) (Block.parser room) := by
  induction room with
  | zero => exact (Agree.expect .leftBrace).bind fun _ _ brace => .fail brace.line _
  | succ room ih =>
      refine (Agree.expect .leftBrace).bind fun _ _ brace => ?_
      exact (furtherStatement_agrees (Statement.parserWith_agrees ih room) brace.line).many

end Block

theorem Statement.parser_agrees (room : Nat) :
    Agree lines (Statement.Parallel lines) (Statement.parser room) (Statement.parser room) :=
  parserWith_agrees (Block.parser_agrees room) room

theorem Program.parser_agrees :
    Agree lines (Block.Parallel lines) Program.parser Program.parser := by
  refine Agree.many (Agree.peek.bind fun _ _ found => ?_)
  cases found with
  | none => exact .pure .none
  | some => exact (Statement.parser_agrees _).bind fun _ _ first => .pure (.some first)

/-- Token lists that differ in their positions only are both programs or both none. -/
theorem Program.ofTokens_parallel {tokens tokens' : List Token}
    (related : List.Forall₂ (Token.Parallel lines) tokens tokens') :
    (∃ program program', ofTokens tokens = .ok program ∧ ofTokens tokens' = .ok program' ∧
      Block.Parallel lines program program') ∨
    ∃ error error', ofTokens tokens = .error (error.settle tokens) ∧
      ofTokens tokens' = .error (error'.settle tokens') ∧
      SyntaxError.Parallel lines error error' := by
  have ends := Program.parser_agrees tokens tokens' related
  unfold ofTokens
  generalize Program.parser tokens = result at ends
  generalize Program.parser tokens' = result' at ends
  cases ends with
  | ok programs rest => exact .inl ⟨_, _, rfl, rfl, programs⟩
  | error errors => exact .inr ⟨_, _, rfl, rfl, errors⟩

end TinyImp
