import TinyImp.Proofs.ExprParsing
import TinyImp.Statement.Parser

/-! # The parser reads exactly the grammar

Each form of statement is known by its first token, so one token of lookahead decides it. Only a
choice looks further: after its first block it takes an `else` if there is one. No statement begins
with that word, so in a row of statements the choice never takes a token that is not its own.
-/

namespace TinyImp

open TinyImp.Parser

/-- The parser takes a block from the front. -/
def Block.Reads (depth : Nat) (parser : Parser Block) : Prop :=
  ∀ tokens block rest,
    parser tokens = .ok block rest ↔
      ∃ used, tokens = used ++ rest ∧ Block.Phrase .standard depth used block

namespace Statement

/-- Statements begin with one of these kinds. -/
def firstKinds : List Token.Kind :=
  [.intWord, .identifier, .printWord, .whileWord, .ifWord]

theorem Phrase.starts {limits : Limits} {depth : Nat} {used : List Token}
    {statement : Statement} (phrase : Phrase limits depth used statement) :
    ∃ first others, used = first :: others ∧ first.kind ∈ firstKinds := by
  cases phrase with
  | declare isWord => exact ⟨_, _, rfl, by rw [isWord]; decide⟩
  | assign isName => exact ⟨_, _, rfl, by rw [isName]; decide⟩
  | print isWord => exact ⟨_, _, rfl, by rw [isWord]; decide⟩
  | loop isWord => exact ⟨_, _, rfl, by rw [isWord]; decide⟩
  | branch isWord => exact ⟨_, _, rfl, by rw [isWord]; decide⟩
  | branchElse isWord => exact ⟨_, _, rfl, by rw [isWord]; decide⟩

theorem ne_of_mem_firstKinds {token : Token} {kind : Token.Kind}
    (isFirst : token.kind ∈ firstKinds) (other : kind ∉ firstKinds) : token.kind ≠ kind := by
  intro same
  rw [same] at isFirst
  exact other isFirst

theorem furtherName_eq_ok_none_iff {tokens rest : List Token} :
    furtherName tokens = .ok none rest ↔
      ∃ semicolon, tokens = semicolon :: rest ∧ semicolon.kind = .semicolon := by
  cases tokens with
  | nil => simp [furtherName, peek_bind, fail_ne_ok]
  | cons token others =>
      simp only [furtherName, peek_bind, List.head?_cons]
      cases isKind : token.kind with
      | comma => simp only [next_bind, bind_eq_ok_iff, pure_eq_ok_iff]; grind
      | semicolon => simp only [next_bind, pure_eq_ok_iff]; grind
      | _ => simp only [misplaced_ne_ok]; grind

theorem furtherName_eq_ok_some_iff {tokens rest : List Token} {name : String} :
    furtherName tokens = .ok (some name) rest ↔
      ∃ comma token, tokens = comma :: token :: rest ∧ comma.kind = .comma ∧
        token.kind = .identifier ∧ name = token.lexeme := by
  cases tokens with
  | nil => simp [furtherName, peek_bind, fail_ne_ok]
  | cons token others =>
      simp only [furtherName, peek_bind, List.head?_cons]
      cases isKind : token.kind with
      | comma =>
          simp only [next_bind, bind_eq_ok_iff, pure_eq_ok_iff, identifier_eq_ok_iff,
            List.tail_cons]
          grind
      | semicolon => simp only [next_bind, pure_eq_ok_iff]; grind
      | _ => simp only [misplaced_ne_ok]; grind

theorem furtherNames_iff {tokens rest : List Token} {names : List String} :
    many furtherName tokens = .ok names rest ↔
      ∃ used, tokens = used ++ rest ∧ FurtherNames used names := by
  rw [many_eq_ok_iff (by grind [furtherName_eq_ok_some_iff])]
  constructor
  · intro collects
    induction collects with
    | done ended =>
        obtain ⟨semicolon, rfl, isSemicolon⟩ := furtherName_eq_ok_none_iff.mp ended
        exact ⟨[semicolon], rfl, .ended isSemicolon⟩
    | more taken collects ih =>
        obtain ⟨comma, name, rfl, isComma, isName, rfl⟩ := furtherName_eq_ok_some_iff.mp taken
        obtain ⟨used, rfl, names⟩ := ih
        exact ⟨comma :: name :: used, rfl, .name isComma isName names⟩
  · rintro ⟨used, rfl, names⟩
    induction names with
    | ended isSemicolon => exact .done (furtherName_eq_ok_none_iff.mpr ⟨_, rfl, isSemicolon⟩)
    | name isComma isName names ih =>
        exact .more (furtherName_eq_ok_some_iff.mpr ⟨_, _, rfl, isComma, isName, rfl⟩) ih

theorem enclosed_eq_ok_iff {depth : Nat} {tokens rest : List Token} {expr : Expr} :
    enclosed (roomAt depth) tokens = .ok expr rest ↔
      ∃ used, tokens = used ++ rest ∧ Expr.Enclosed .standard depth used expr := by
  simp only [enclosed, bind_eq_ok_iff, expect_eq_ok_iff, pure_eq_ok_iff,
    Expr.parser_reads depth _ _ _]
  constructor
  · rintro ⟨opening, _, ⟨rfl, isOpening⟩, _, _, ⟨used, rfl, phrase, _⟩, closing, _,
      ⟨rfl, isClosing⟩, rfl, rfl⟩
    exact ⟨opening :: used ++ [closing], by simp, .parens isOpening phrase isClosing⟩
  · rintro ⟨_, rfl, enclosed⟩
    obtain @⟨opening, closing, used, _, isOpening, phrase, isClosing⟩ := enclosed
    have stops : Expr.Stops Tier.all (closing :: rest) :=
      Expr.stops_of_no_operator (by rw [isClosing]; rfl)
    exact ⟨opening, _, ⟨rfl, isOpening⟩, expr, closing :: rest, ⟨used, by simp, phrase, stops⟩,
      closing, rest, ⟨rfl, isClosing⟩, rfl, rfl⟩

section Forms

variable {depth : Nat} {block : Parser Block} {tokens rest : List Token} {statement : Statement}

theorem declaration_eq_ok_iff :
    declaration tokens = .ok statement rest ↔
      ∃ word first used names, tokens = word :: first :: used ++ rest ∧ word.kind = .intWord ∧
        first.kind = .identifier ∧ FurtherNames used names ∧
        statement = .declare (first.lexeme :: names) word.line := by
  simp only [declaration, Statement.names, bind_eq_ok_iff, expect_eq_ok_iff, identifier_eq_ok_iff,
    pure_eq_ok_iff, furtherNames_iff]
  constructor
  · rintro ⟨word, _, ⟨rfl, isWord⟩, _, _, ⟨first, _, ⟨rfl, isName⟩, names, _, ⟨used, rfl, further⟩,
      rfl, rfl⟩, rfl, rfl⟩
    exact ⟨word, first, used, names, rfl, isWord, isName, further, rfl⟩
  · rintro ⟨word, first, used, names, rfl, isWord, isName, further, rfl⟩
    exact ⟨word, _, ⟨rfl, isWord⟩, _, rest, ⟨first, _, ⟨rfl, isName⟩, names, rest,
      ⟨used, rfl, further⟩, rfl, rfl⟩, rfl, rfl⟩

theorem assignment_eq_ok_iff :
    assignment (roomAt depth) tokens = .ok statement rest ↔
      ∃ target equals used value semicolon, tokens = target :: equals :: used ++ semicolon :: rest ∧
        target.kind = .identifier ∧ equals.kind = .equals ∧
        Expr.Phrase .standard Tier.all depth used value ∧ semicolon.kind = .semicolon ∧
        statement = .assign target.lexeme value target.line := by
  simp only [assignment, bind_eq_ok_iff, expect_eq_ok_iff, identifier_eq_ok_iff, pure_eq_ok_iff,
    Expr.parser_reads depth _ _ _]
  constructor
  · rintro ⟨target, _, ⟨rfl, isName⟩, equals, _, ⟨rfl, isEquals⟩, value, _, ⟨used, rfl, phrase, _⟩,
      semicolon, _, ⟨rfl, isSemicolon⟩, rfl, rfl⟩
    exact ⟨target, equals, used, value, semicolon, rfl, isName, isEquals, phrase, isSemicolon, rfl⟩
  · rintro ⟨target, equals, used, value, semicolon, rfl, isName, isEquals, phrase, isSemicolon, rfl⟩
    have stops : Expr.Stops Tier.all (semicolon :: rest) :=
      Expr.stops_of_no_operator (by rw [isSemicolon]; rfl)
    exact ⟨target, _, ⟨rfl, isName⟩, equals, _, ⟨rfl, isEquals⟩, value, _,
      ⟨used, rfl, phrase, stops⟩, semicolon, rest, ⟨rfl, isSemicolon⟩, rfl, rfl⟩

theorem printing_eq_ok_iff :
    printing (roomAt depth) tokens = .ok statement rest ↔
      ∃ word used value semicolon, tokens = word :: used ++ semicolon :: rest ∧
        word.kind = .printWord ∧ Expr.Enclosed .standard depth used value ∧
        semicolon.kind = .semicolon ∧ statement = .print value word.line := by
  simp only [printing, bind_eq_ok_iff, expect_eq_ok_iff, enclosed_eq_ok_iff, pure_eq_ok_iff]
  constructor
  · rintro ⟨word, _, ⟨rfl, isWord⟩, value, _, ⟨used, rfl, enclosed⟩, semicolon, _,
      ⟨rfl, isSemicolon⟩, rfl, rfl⟩
    exact ⟨word, used, value, semicolon, rfl, isWord, enclosed, isSemicolon, rfl⟩
  · rintro ⟨word, used, value, semicolon, rfl, isWord, enclosed, isSemicolon, rfl⟩
    exact ⟨word, _, ⟨rfl, isWord⟩, value, _, ⟨used, rfl, enclosed⟩, semicolon, rest,
      ⟨rfl, isSemicolon⟩, rfl, rfl⟩

theorem loopParser_eq_ok_iff (blocks : Block.Reads depth block) :
    loopParser block (roomAt depth) tokens = .ok statement rest ↔
      ∃ word used usedBody condition body, tokens = word :: used ++ usedBody ++ rest ∧
        word.kind = .whileWord ∧ Expr.Enclosed .standard depth used condition ∧
        Block.Phrase .standard depth usedBody body ∧ statement = .loop condition body word.line := by
  simp only [loopParser, bind_eq_ok_iff, expect_eq_ok_iff, enclosed_eq_ok_iff, pure_eq_ok_iff,
    blocks _ _ _]
  constructor
  · rintro ⟨word, _, ⟨rfl, isWord⟩, condition, _, ⟨used, rfl, enclosed⟩, body, _,
      ⟨usedBody, rfl, phrase⟩, rfl, rfl⟩
    exact ⟨word, used, usedBody, condition, body, by simp, isWord, enclosed, phrase, rfl⟩
  · rintro ⟨word, used, usedBody, condition, body, rfl, isWord, enclosed, phrase, rfl⟩
    exact ⟨word, _, ⟨rfl, isWord⟩, condition, usedBody ++ rest, ⟨used, by simp, enclosed⟩, body,
      rest, ⟨usedBody, rfl, phrase⟩, rfl, rfl⟩

/-- Nothing that follows continues a choice. -/
def NoElse (rest : List Token) : Prop :=
  ∀ token ∈ rest.head?, token.kind ≠ .elseWord

theorem branchParser_eq_ok_iff (blocks : Block.Reads depth block) :
    branchParser block (roomAt depth) tokens = .ok statement rest ↔
      ∃ word used usedTrue condition whenTrue mid, tokens = word :: used ++ usedTrue ++ mid ∧
        word.kind = .ifWord ∧ Expr.Enclosed .standard depth used condition ∧
        Block.Phrase .standard depth usedTrue whenTrue ∧
        ((∃ elseWord usedFalse whenFalse, mid = elseWord :: usedFalse ++ rest ∧
            elseWord.kind = .elseWord ∧ Block.Phrase .standard depth usedFalse whenFalse ∧
            statement = .branch condition whenTrue whenFalse word.line) ∨
          (mid = rest ∧ NoElse rest ∧ statement = .branch condition whenTrue [] word.line)) := by
  simp only [branchParser, bind_eq_ok_iff, expect_eq_ok_iff, enclosed_eq_ok_iff, blocks _ _ _]
  constructor
  · rintro ⟨word, _, ⟨rfl, isWord⟩, condition, _, ⟨used, rfl, enclosed⟩, whenTrue, mid,
      ⟨usedTrue, rfl, phrase⟩, found, beyond, taken, after⟩
    refine ⟨word, used, usedTrue, condition, whenTrue, mid, by simp, isWord, enclosed, phrase, ?_⟩
    cases found with
    | none =>
        obtain ⟨rfl, noElse⟩ := nextIf_eq_ok_none_iff.mp taken
        obtain ⟨rfl, rfl⟩ := pure_eq_ok_iff.mp after
        exact .inr ⟨rfl, noElse, rfl⟩
    | some elseWord =>
        obtain ⟨rfl, isElse⟩ := nextIf_eq_ok_some_iff.mp taken
        simp only [bind_eq_ok_iff, blocks _ _ _, pure_eq_ok_iff] at after
        obtain ⟨whenFalse, _, ⟨usedFalse, rfl, phraseFalse⟩, rfl, rfl⟩ := after
        exact .inl ⟨elseWord, usedFalse, whenFalse, rfl, isElse, phraseFalse, rfl⟩
  · rintro ⟨word, used, usedTrue, condition, whenTrue, mid, rfl, isWord, enclosed, phrase, ending⟩
    refine ⟨word, _, ⟨rfl, isWord⟩, condition, usedTrue ++ mid, ⟨used, by simp, enclosed⟩, whenTrue,
      mid, ⟨usedTrue, rfl, phrase⟩, ?_⟩
    rcases ending with ⟨elseWord, usedFalse, whenFalse, rfl, isElse, phraseFalse, rfl⟩ |
      ⟨rfl, noElse, rfl⟩
    · refine ⟨some elseWord, usedFalse ++ rest, nextIf_eq_ok_some_iff.mpr ⟨rfl, isElse⟩, ?_⟩
      simp only [bind_eq_ok_iff, blocks _ _ _, pure_eq_ok_iff]
      exact ⟨whenFalse, rest, ⟨usedFalse, rfl, phraseFalse⟩, rfl, rfl⟩
    · exact ⟨none, mid, nextIf_eq_ok_none_iff.mpr ⟨rfl, noElse⟩, pure_eq_ok_iff.mpr ⟨rfl, rfl⟩⟩

end Forms

/-- The parser takes a statement from the front. A choice without an `else` may be cut short only
    where no `else` follows. -/
structure Reads (depth : Nat) (parser : Parser Statement) : Prop where
  sound {tokens rest : List Token} {statement : Statement} :
    parser tokens = .ok statement rest →
      ∃ used, tokens = used ++ rest ∧ Phrase .standard depth used statement
  complete {used rest : List Token} {statement : Statement} :
    Phrase .standard depth used statement → NoElse rest →
      parser (used ++ rest) = .ok statement rest

theorem parserWith_sound {depth : Nat} {block : Parser Block} (blocks : Block.Reads depth block)
    {tokens rest : List Token} {statement : Statement}
    (succeeds : parserWith block (roomAt depth) tokens = .ok statement rest) :
    ∃ used, tokens = used ++ rest ∧ Phrase .standard depth used statement := by
  simp only [parserWith, peek_bind] at succeeds
  cases tokens with
  | nil => exact absurd succeeds fail_ne_ok
  | cons token others =>
      simp only [List.head?_cons] at succeeds
      cases isKind : token.kind with
      | intWord =>
          simp only [isKind, declaration_eq_ok_iff] at succeeds
          obtain ⟨word, first, used, names, starts, isWord, isName, further, rfl⟩ := succeeds
          exact ⟨word :: first :: used, starts, .declare isWord isName further⟩
      | identifier =>
          simp only [isKind, assignment_eq_ok_iff] at succeeds
          obtain ⟨target, equals, used, value, semicolon, starts, isName, isEquals, phrase,
            isSemicolon, rfl⟩ := succeeds
          exact ⟨target :: equals :: used ++ [semicolon], by simpa using starts,
            .assign isName isEquals phrase isSemicolon⟩
      | printWord =>
          simp only [isKind, printing_eq_ok_iff] at succeeds
          obtain ⟨word, used, value, semicolon, starts, isWord, enclosed, isSemicolon, rfl⟩ :=
            succeeds
          exact ⟨word :: used ++ [semicolon], by simpa using starts,
            .print isWord enclosed isSemicolon⟩
      | whileWord =>
          simp only [isKind, loopParser_eq_ok_iff blocks] at succeeds
          obtain ⟨word, used, usedBody, condition, body, starts, isWord, enclosed, phrase, rfl⟩ :=
            succeeds
          exact ⟨word :: used ++ usedBody, starts, .loop isWord enclosed phrase⟩
      | ifWord =>
          simp only [isKind, branchParser_eq_ok_iff blocks] at succeeds
          obtain ⟨word, used, usedTrue, condition, whenTrue, mid, starts, isWord, enclosed, phrase,
            ending⟩ := succeeds
          rcases ending with ⟨elseWord, usedFalse, whenFalse, rfl, isElse, phraseFalse, rfl⟩ |
            ⟨rfl, _, rfl⟩
          · exact ⟨word :: used ++ usedTrue ++ elseWord :: usedFalse, by simpa using starts,
              .branchElse isWord enclosed phrase isElse phraseFalse⟩
          · exact ⟨word :: used ++ usedTrue, starts, .branch isWord enclosed phrase⟩
      | _ =>
          simp only [isKind] at succeeds
          exact absurd succeeds fail_ne_ok

theorem parserWith_complete {depth : Nat} {block : Parser Block} (blocks : Block.Reads depth block)
    {used rest : List Token} {statement : Statement} (phrase : Phrase .standard depth used statement)
    (noElse : NoElse rest) :
    parserWith block (roomAt depth) (used ++ rest) = .ok statement rest := by
  simp only [parserWith, peek_bind]
  cases phrase with
  | declare isWord isName further =>
      simp only [List.cons_append, List.head?_cons, isWord]
      exact declaration_eq_ok_iff.mpr ⟨_, _, _, _, rfl, isWord, isName, further, rfl⟩
  | assign isName isEquals phrase isSemicolon =>
      simp only [List.cons_append, List.head?_cons, isName, List.append_assoc]
      exact assignment_eq_ok_iff.mpr
        ⟨_, _, _, _, _, rfl, isName, isEquals, phrase, isSemicolon, rfl⟩
  | print isWord enclosed isSemicolon =>
      simp only [List.cons_append, List.head?_cons, isWord, List.append_assoc]
      exact printing_eq_ok_iff.mpr ⟨_, _, _, _, rfl, isWord, enclosed, isSemicolon, rfl⟩
  | loop isWord enclosed phrase =>
      simp only [List.cons_append, List.head?_cons, isWord]
      exact (loopParser_eq_ok_iff blocks).mpr
        ⟨_, _, _, _, _, rfl, isWord, enclosed, phrase, rfl⟩
  | branch isWord enclosed phrase =>
      simp only [List.cons_append, List.head?_cons, isWord]
      exact (branchParser_eq_ok_iff blocks).mpr
        ⟨_, _, _, _, _, rest, rfl, isWord, enclosed, phrase, .inr ⟨rfl, noElse, rfl⟩⟩
  | @branchElse _ word elseWord used usedTrue usedFalse _ _ _ isWord enclosed phrase isElse
      phraseFalse =>
      simp only [List.cons_append, List.head?_cons, isWord]
      exact (branchParser_eq_ok_iff blocks).mpr
        ⟨word, used, usedTrue, _, _, elseWord :: usedFalse ++ rest, by simp, isWord, enclosed,
          phrase, .inl ⟨elseWord, usedFalse, _, rfl, isElse, phraseFalse, rfl⟩⟩

theorem parserWith_reads {depth : Nat} {block : Parser Block} (blocks : Block.Reads depth block) :
    Reads depth (parserWith block (roomAt depth)) :=
  ⟨parserWith_sound blocks, parserWith_complete blocks⟩

end Statement

namespace Block

open Statement (NoElse)

theorem Row.noElse {limits : Limits} {depth : Nat} {used rest : List Token} {block : Block}
    (row : Row limits depth used block) (noElse : NoElse rest) : NoElse (used ++ rest) := by
  cases row with
  | nil => exact noElse
  | cons phrase row =>
      obtain ⟨first, others, rfl, isFirst⟩ := phrase.starts
      intro token isToken
      cases isToken
      exact Statement.ne_of_mem_firstKinds isFirst (by decide)

/-- A loop whose rounds each read a statement reads a row of them, up to where it ends. -/
theorem collects_iff {depth : Nat} {statement : Parser Statement} {item : Parser (Option Statement)}
    {ends : List Token → List Token → Prop} (reads : Statement.Reads depth statement)
    (step : ∀ tokens first mid,
      item tokens = .ok (some first) mid ↔ statement tokens = .ok first mid)
    (stop : ∀ tokens rest, item tokens = .ok none rest ↔ ends tokens rest)
    (noElse : ∀ tokens rest, ends tokens rest → NoElse tokens)
    (tokens : List Token) (block : Block) (rest : List Token) :
    Collects item tokens block rest ↔
      ∃ used mid, tokens = used ++ mid ∧ Row .standard depth used block ∧ ends mid rest := by
  constructor
  · intro collects
    induction collects with
    | @done tokens _ ended => exact ⟨[], tokens, rfl, .nil, (stop _ _).mp ended⟩
    | more taken collects ih =>
        obtain ⟨usedFirst, rfl, phrase⟩ := reads.sound ((step _ _ _).mp taken)
        obtain ⟨used, mid, rfl, row, ended⟩ := ih
        exact ⟨usedFirst ++ used, mid, (List.append_assoc ..).symm, .cons phrase row, ended⟩
  · rintro ⟨used, mid, rfl, row, ended⟩
    induction block generalizing used with
    | nil =>
        cases row
        exact .done ((stop _ _).mpr ended)
    | cons first block ih =>
        cases row with
        | cons phrase row =>
            rw [List.append_assoc]
            have parsed := reads.complete phrase (row.noElse (noElse mid rest ended))
            exact .more ((step _ _ _).mpr parsed) (ih _ row)

theorem shrinks_of_reads {depth : Nat} {statement : Parser Statement}
    {item : Parser (Option Statement)} (reads : Statement.Reads depth statement)
    (step : ∀ tokens first mid,
      item tokens = .ok (some first) mid ↔ statement tokens = .ok first mid)
    (tokens : List Token) (first : Statement) (rest : List Token)
    (taken : item tokens = .ok (some first) rest) : rest.length < tokens.length := by
  obtain ⟨used, rfl, phrase⟩ := reads.sound ((step _ _ _).mp taken)
  obtain ⟨token, others, rfl, _⟩ := phrase.starts
  simp only [List.length_append, List.length_cons]
  omega

theorem furtherStatement_eq_ok_none_iff {statement : Parser Statement} {line : Nat}
    {tokens rest : List Token} :
    furtherStatement statement line tokens = .ok none rest ↔
      ∃ closing, tokens = closing :: rest ∧ closing.kind = .rightBrace := by
  simp only [furtherStatement, bind_eq_ok_iff]
  constructor
  · rintro ⟨found, mid, taken, after⟩
    cases found with
    | none =>
        simp only [peek_bind] at after
        cases mid with
        | nil => exact absurd after fail_ne_ok
        | cons token others =>
            simp only [List.head?_cons, bind_eq_ok_iff, pure_eq_ok_iff] at after
            obtain ⟨_, _, _, impossible, _⟩ := after
            cases impossible
    | some closing =>
        obtain ⟨_, rfl⟩ := pure_eq_ok_iff.mp after
        exact ⟨closing, nextIf_eq_ok_some_iff.mp taken⟩
  · rintro ⟨closing, isClosing⟩
    exact ⟨some closing, rest, nextIf_eq_ok_some_iff.mpr isClosing, pure_eq_ok_iff.mpr ⟨rfl, rfl⟩⟩

theorem furtherStatement_eq_ok_some_iff {depth : Nat} {statement : Parser Statement}
    (reads : Statement.Reads depth statement) {line : Nat} {tokens : List Token}
    {first : Statement} {rest : List Token} :
    furtherStatement statement line tokens = .ok (some first) rest ↔
      statement tokens = .ok first rest := by
  simp only [furtherStatement, bind_eq_ok_iff]
  constructor
  · rintro ⟨found, mid, taken, after⟩
    cases found with
    | none =>
        obtain ⟨rfl, _⟩ := nextIf_eq_ok_none_iff.mp taken
        simp only [peek_bind] at after
        cases tokens with
        | nil => exact absurd after fail_ne_ok
        | cons token others =>
            simp only [List.head?_cons, bind_eq_ok_iff, pure_eq_ok_iff] at after
            obtain ⟨_, _, parsed, same, rfl⟩ := after
            cases same
            exact parsed
    | some closing =>
        obtain ⟨impossible, _⟩ := pure_eq_ok_iff.mp after
        cases impossible
  · intro parsed
    obtain ⟨used, rfl, phrase⟩ := reads.sound parsed
    obtain ⟨token, others, rfl, isFirst⟩ := phrase.starts
    refine ⟨none, _, nextIf_eq_ok_none_iff.mpr ⟨rfl, ?_⟩, ?_⟩
    · intro opening isOpening
      cases isOpening
      exact Statement.ne_of_mem_firstKinds isFirst (by decide)
    · simp only [peek_bind, List.cons_append, List.head?_cons, bind_eq_ok_iff, pure_eq_ok_iff]
      exact ⟨first, rest, parsed, rfl, rfl⟩

/-- A block closes where its brace stands. -/
theorem many_furtherStatement_iff {depth : Nat} {statement : Parser Statement}
    (reads : Statement.Reads depth statement) {line : Nat} {tokens : List Token} {block : Block}
    {rest : List Token} :
    many (furtherStatement statement line) tokens = .ok block rest ↔
      ∃ used closing, tokens = used ++ closing :: rest ∧ Row .standard depth used block ∧
        closing.kind = .rightBrace := by
  have step : ∀ tokens first mid, furtherStatement statement line tokens = .ok (some first) mid ↔
      statement tokens = .ok first mid := by
    intro tokens first mid
    exact furtherStatement_eq_ok_some_iff reads
  rw [many_eq_ok_iff (shrinks_of_reads reads step),
    collects_iff reads step (fun _ _ => furtherStatement_eq_ok_none_iff)]
  · constructor
    · rintro ⟨used, _, rfl, row, closing, rfl, isClosing⟩
      exact ⟨used, closing, rfl, row, isClosing⟩
    · rintro ⟨used, closing, rfl, row, isClosing⟩
      exact ⟨used, closing :: rest, rfl, row, closing, rfl, isClosing⟩
  · rintro _ _ ⟨closing, rfl, isClosing⟩ token isToken
    cases isToken
    rw [isClosing]
    decide

theorem parser_reads (depth : Nat) : Reads depth (parser (roomAt depth)) := by
  generalize left : roomAt depth = room
  unfold roomAt at left
  induction room generalizing depth with
  | zero =>
      intro tokens block rest
      simp only [parser, bind_eq_ok_iff]
      constructor
      · rintro ⟨_, _, _, refused⟩
        exact absurd refused fail_ne_ok
      · rintro ⟨used, rfl, phrase⟩
        obtain ⟨_, (below : depth < maxNesting), _, _⟩ := phrase
        omega
  | succ room ih =>
      intro tokens block rest
      have below : depth < maxNesting := by omega
      have deeper : roomAt (depth + 1) = room := by
        unfold roomAt
        omega
      have statements := Statement.parserWith_reads (ih (depth + 1) deeper)
      rw [deeper] at statements
      simp only [parser, bind_eq_ok_iff, expect_eq_ok_iff, many_furtherStatement_iff statements]
      constructor
      · rintro ⟨opening, _, ⟨rfl, isOpening⟩, used, closing, rfl, row, isClosing⟩
        exact ⟨opening :: used ++ [closing], by simp, .braces isOpening below row isClosing⟩
      · rintro ⟨_, rfl, phrase⟩
        obtain @⟨_, opening, closing, used, _, isOpening, _, row, isClosing⟩ := phrase
        exact ⟨opening, _, ⟨rfl, isOpening⟩, used, closing, by simp, row, isClosing⟩

end Block

theorem Statement.parser_reads (depth : Nat) : Statement.Reads depth (parser (roomAt depth)) :=
  parserWith_reads (Block.parser_reads depth)

namespace Program

theorem furtherStatement_eq_ok_none_iff {tokens rest : List Token} :
    furtherStatement tokens = .ok none rest ↔ tokens = [] ∧ rest = [] := by
  cases tokens with
  | nil => simp [furtherStatement, peek_bind, pure_eq_ok_iff, eq_comm]
  | cons token others =>
      simp only [furtherStatement, peek_bind, List.head?_cons, bind_eq_ok_iff, pure_eq_ok_iff]
      grind

theorem furtherStatement_eq_ok_some_iff {tokens : List Token} {first : Statement}
    {rest : List Token} :
    furtherStatement tokens = .ok (some first) rest ↔
      Statement.parser (roomAt 0) tokens = .ok first rest := by
  cases tokens with
  | nil =>
      have refused : Statement.parser (roomAt 0) [] ≠ .ok first rest := by
        intro parsed
        obtain ⟨used, ended, phrase⟩ := (Statement.parser_reads 0).sound parsed
        obtain ⟨token, others, rfl, _⟩ := phrase.starts
        cases ended
      simp [furtherStatement, peek_bind, pure_eq_ok_iff, refused]
  | cons token others =>
      simp only [furtherStatement, peek_bind, List.head?_cons, bind_eq_ok_iff, pure_eq_ok_iff]
      grind

theorem parser_eq_ok_iff {tokens : List Token} {program : Program} {rest : List Token} :
    parser tokens = .ok program rest ↔ Phrase .standard tokens program ∧ rest = [] := by
  have step : ∀ tokens first mid, furtherStatement tokens = .ok (some first) mid ↔
      Statement.parser (roomAt 0) tokens = .ok first mid := by
    intro tokens first mid
    exact furtherStatement_eq_ok_some_iff
  have reads := Statement.parser_reads 0
  rw [parser, many_eq_ok_iff (Block.shrinks_of_reads reads step),
    Block.collects_iff reads step (fun _ _ => furtherStatement_eq_ok_none_iff)]
  · constructor
    · rintro ⟨used, _, rfl, row, rfl, rfl⟩
      rw [List.append_nil]
      exact ⟨row, rfl⟩
    · rintro ⟨row, rfl⟩
      exact ⟨tokens, [], (List.append_nil tokens).symm, row, rfl, rfl⟩
  · rintro _ _ ⟨rfl, rfl⟩ token isToken
    cases isToken

theorem ofTokens_eq_ok_iff {tokens : List Token} {program : Program} :
    ofTokens tokens = .ok program ↔ Phrase .standard tokens program := by
  unfold ofTokens
  cases parsed : parser tokens with
  | ok found rest =>
      obtain ⟨phrase, rfl⟩ := parser_eq_ok_iff.mp parsed
      constructor
      · intro same
        cases same
        exact phrase
      · intro other
        have again := parser_eq_ok_iff.mpr ⟨other, rfl⟩
        rw [parsed] at again
        cases again
        rfl
  | error error rest =>
      constructor
      · intro impossible
        cases impossible
      · intro phrase
        have found := parser_eq_ok_iff.mpr ⟨phrase, rfl⟩
        rw [parsed] at found
        cases found

end Program

/-- The parser accepts what the grammar derives and builds its tree, and the grammar derives at most
    one tree from a token list. -/
theorem parser_accepts_exactly_the_grammar (tokens : List Token) :
    (∀ program, Program.ofTokens tokens = .ok program ↔ Program.Phrase .standard tokens program) ∧
      ∀ program other, Program.Phrase .standard tokens program →
        Program.Phrase .standard tokens other → program = other := by
  refine ⟨fun _ => Program.ofTokens_eq_ok_iff, ?_⟩
  intro program other phrase phraseOther
  have parsed := Program.ofTokens_eq_ok_iff.mpr phrase
  have parsedOther := Program.ofTokens_eq_ok_iff.mpr phraseOther
  rw [parsed] at parsedOther
  exact Except.ok.inj parsedOther

/-- In `print(1 + -9223372036854775808 * (x));` the product binds tighter, the sign belongs to the
    numeral and the inner parentheses leave no trace. -/
theorem least_product_has_one_tree :
    ∃ (tokens : List Token) (program : Program),
      tokens.map (·.lexeme) =
        ["print", "(", "1", "+", "-", "9223372036854775808", "*", "(", "x", ")", ")", ";"] ∧
      program = [.print (.binary .add (.const 1 1)
        (.binary .mul (.const Value.least 1) (.var "x" 2) 1) 1) 1] ∧
      Program.Phrase .standard tokens program ∧
      ∀ other, Program.Phrase .standard tokens other → program = other := by
  refine ⟨[⟨⟨1, 1⟩, .printWord, "print"⟩, ⟨⟨1, 6⟩, .leftParen, "("⟩, ⟨⟨1, 7⟩, .number, "1"⟩,
    ⟨⟨1, 9⟩, .plus, "+"⟩, ⟨⟨1, 11⟩, .minus, "-"⟩, ⟨⟨1, 12⟩, .number, "9223372036854775808"⟩,
    ⟨⟨1, 32⟩, .star, "*"⟩, ⟨⟨2, 1⟩, .leftParen, "("⟩, ⟨⟨2, 2⟩, .identifier, "x"⟩,
    ⟨⟨2, 3⟩, .rightParen, ")"⟩, ⟨⟨2, 4⟩, .rightParen, ")"⟩, ⟨⟨2, 5⟩, .semicolon, ";"⟩],
    _, rfl, rfl, ?phrase, ?unique⟩
  case phrase => exact ((parser_accepts_exactly_the_grammar _).1 _).mp rfl
  case unique =>
    intro other phrase
    refine (parser_accepts_exactly_the_grammar _).2 _ other ?_ phrase
    exact ((parser_accepts_exactly_the_grammar _).1 _).mp rfl

end TinyImp
