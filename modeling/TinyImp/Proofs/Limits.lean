import TinyImp.Proofs.LowTrees
import TinyImp.Proofs.Parsing

/-! # Phrases beyond the limits

A phrase that breaks a limit is refused for that and for nothing else. Each parser is followed along
a phrase under limits of any kind: it comes to the tree of the phrase, or its own limits stop it on
the way.
-/

namespace TinyImp

theorem roomAt_succ {depth room : Nat} (left : roomAt depth = room + 1) :
    roomAt (depth + 1) = room := by
  unfold roomAt at left ⊢
  omega

namespace Parser

variable {α β : Type} {tokens mid rest : List Token}

/-- A limit stops the parser. -/
def Limited (parser : Parser α) (tokens : List Token) : Prop :=
  ∃ line left, parser tokens = .error { fault := .nestingTooDeep, line } left

/-- The parser comes to a result, unless a limit stops it. -/
def Yields (parser : Parser α) (tokens : List Token) (a : α) (rest : List Token) : Prop :=
  parser tokens = .ok a rest ∨ Limited parser tokens

theorem limited_fail (line : Nat) (tokens : List Token) :
    Limited (fail .nestingTooDeep line : Parser α) tokens :=
  ⟨line, tokens, rfl⟩

theorem Limited.of_eq {parser other : Parser α} (limited : Limited other mid)
    (same : parser tokens = other mid) : Limited parser tokens := by
  obtain ⟨line, left, stopped⟩ := limited
  exact ⟨line, left, same.trans stopped⟩

theorem Limited.bind {first : Parser α} {further : α → Parser β} (limited : Limited first tokens) :
    Limited (first >>= further) tokens := by
  obtain ⟨line, left, stopped⟩ := limited
  exact ⟨line, left, bind_of_error stopped⟩

theorem Yields.of_eq {parser other : Parser α} {a : α} (here : other.Yields mid a rest)
    (same : parser tokens = other mid) : parser.Yields tokens a rest := by
  cases here with
  | inr limited => exact .inr (limited.of_eq same)
  | inl done => exact .inl (same.trans done)

theorem Yields.bind {first : Parser α} {further : α → Parser β} {a : α} {b : β}
    (here : first.Yields tokens a mid) (after : (further a).Yields mid b rest) :
    (first >>= further).Yields tokens b rest := by
  cases here with
  | inr limited => exact .inr limited.bind
  | inl done => exact after.of_eq (bind_of_ok done)

theorem yields_expect {kind : Token.Kind} {token : Token} (isKind : token.kind = kind) :
    (expect kind).Yields (token :: rest) token rest :=
  .inl (expect_eq_ok_iff.mpr ⟨rfl, isKind⟩)

/-- The rounds of `item` up to its first `none`, if no limit stops one of them. -/
inductive YieldsEach (item : Parser (Option α)) : List Token → List α → List Token → Prop where
  | done {tokens rest : List Token} :
      item tokens = .ok none rest →
      YieldsEach item tokens [] rest
  | more {tokens mid rest : List Token} {a : α} {others : List α} :
      item.Yields tokens (some a) mid →
      mid.length < tokens.length →
      YieldsEach item mid others rest →
      YieldsEach item tokens (a :: others) rest

theorem YieldsEach.many {item : Parser (Option α)} {collected : List α}
    (each : YieldsEach item tokens collected rest) : (many item).Yields tokens collected rest := by
  have within : ∀ rounds, tokens.length < rounds →
      (manyWithin item rounds).Yields tokens collected rest := by
    induction each with
    | done ended =>
        intro rounds enough
        cases rounds with
        | zero => omega
        | succ rounds => exact Yields.bind (.inl ended) (.inl rfl)
    | more here shorter _ ih =>
        intro rounds enough
        cases rounds with
        | zero => omega
        | succ rounds => exact here.bind ((ih rounds (by omega)).bind (.inl rfl))
  exact within (tokens.length + 1) (by omega)

end Parser

namespace Expr

open TinyImp.Parser

theorem Stops.tail {tiers : List Tier} {rest : List Token} (stops : Stops tiers rest) :
    Stops tiers.tail rest := by
  cases tiers with
  | nil => exact stops
  | cons tier tiers => exact (stops_cons_iff.mp stops).2

theorem joined_limited {operand : Parser Expr} {tokens : List Token}
    (limited : Limited operand tokens) (tiers : List Tier) :
    Limited (joined tiers operand) tokens := by
  induction tiers with
  | nil => exact limited
  | cons tier tiers ih => exact ih.bind

/-- One round of a chain ends in a higher tree, unless a limit stops it. -/
theorem chainWithin_step {tier : Tier} {operand : Parser Expr} {left right : Expr} {sign : Token}
    {op : BinaryOp} {tokens rest : List Token} (rounds : Nat)
    (isOperator : operatorOf tier sign = some (op, sign.line))
    (here : operand.Yields tokens right rest) :
    Limited (chainWithin tier operand (rounds + 1) left) (sign :: tokens) ∨
      (Expr.binary op left right sign.line).height ≤ maxHeight ∧
        chainWithin tier operand (rounds + 1) left (sign :: tokens) =
          chainWithin tier operand rounds (.binary op left right sign.line) rest := by
  have taken : nextMatching (operatorOf tier) (sign :: tokens) =
      .ok (some (op, sign.line)) tokens :=
    nextMatching_eq_ok_some_iff.mpr ⟨sign, rfl, isOperator⟩
  unfold Limited
  rw [chainWithin, bind_of_ok taken]
  cases here with
  | inr limited => exact .inl limited.bind
  | inl done =>
      simp only [bind_of_ok done]
      split
      next low => exact .inr ⟨low, rfl⟩
      next => exact .inl (limited_fail sign.line rest)

/-- The parser of some tiers has taken `used` for `expr`. It goes on with the operators of its first
    tier, in as many rounds as the limit on height leaves. -/
def Holds (operand : Parser Expr) (used rest : List Token) (expr : Expr) : List Tier → Prop
  | [] => operand.Yields (used ++ rest) expr rest
  | tier :: tiers =>
      Limited (joined (tier :: tiers) operand) (used ++ rest) ∨
        ∃ rounds, 0 < rounds ∧ maxHeight < expr.height + rounds ∧
          joined (tier :: tiers) operand (used ++ rest) =
            chainWithin tier (joined tiers operand) rounds expr rest

theorem Holds.yields {operand : Parser Expr} {used rest : List Token} {expr : Expr}
    {tiers : List Tier} (holds : Holds operand used rest expr tiers) (stops : Stops tiers rest) :
    (joined tiers operand).Yields (used ++ rest) expr rest := by
  cases tiers with
  | nil => exact holds
  | cons tier tiers =>
      rcases holds with limited | ⟨rounds, positive, _, same⟩
      · exact .inr limited
      · obtain ⟨rounds, rfl⟩ := Nat.exists_eq_succ_of_ne_zero (Nat.ne_of_gt positive)
        have ended : nextMatching (operatorOf tier) rest = .ok none rest :=
          nextMatching_eq_ok_none_iff.mpr ⟨rfl, (stops_cons_iff.mp stops).1⟩
        rw [chainWithin, bind_of_ok ended] at same
        exact .inl same

theorem Holds.tighter {operand : Parser Expr} {used rest : List Token} {expr : Expr}
    {tiers : List Tier} (holds : Holds operand used rest expr tiers) (stops : Stops tiers rest)
    (tier : Tier) : Holds operand used rest expr (tier :: tiers) := by
  cases holds.yields stops with
  | inr limited => exact .inl limited.bind
  | inl done =>
      have positive := expr.height_pos
      exact .inr ⟨maxHeight, by decide, by omega, bind_of_ok done⟩

theorem Holds.binary {operand : Parser Expr} {usedLeft usedRight rest : List Token}
    {left right : Expr} {tier : Tier} {tiers : List Tier} {sign : Token} {op : BinaryOp}
    (holds : Holds operand usedLeft (sign :: usedRight ++ rest) left (tier :: tiers))
    (isOperator : operatorOf tier sign = some (op, sign.line))
    (here : (joined tiers operand).Yields (usedRight ++ rest) right rest) :
    Holds operand (usedLeft ++ sign :: usedRight) rest (.binary op left right sign.line)
      (tier :: tiers) := by
  simp only [Holds, List.append_assoc]
  rcases holds with limited | ⟨rounds, positive, enough, same⟩
  · exact .inl limited
  · obtain ⟨rounds, rfl⟩ := Nat.exists_eq_succ_of_ne_zero (Nat.ne_of_gt positive)
    rcases chainWithin_step rounds isOperator here with limited | ⟨low, next⟩
    · exact .inl (limited.of_eq same)
    · have higher := height_left_lt op left right sign.line
      exact .inr ⟨rounds, by omega, by omega, same.trans next⟩

/-- Inside a level the parser comes to a result at whatever depth it is. -/
theorem inside_yields {tiers : List Tier} {tokens rest : List Token} {expr : Expr}
    (deeper : ∀ depth, (joined tiers (operand (roomAt depth))).Yields tokens expr rest)
    (depth line : Nat) :
    (joined tiers (inside (roomAt depth) line)).Yields tokens expr rest := by
  cases left : roomAt depth with
  | zero => exact .inr (joined_limited (limited_fail line tokens) tiers)
  | succ room =>
      have here := deeper (depth + 1)
      rw [roomAt_succ left] at here
      exact here

theorem prefixed_yields_parens {inner : Nat → Parser Expr} {opening closing : Token}
    {used rest : List Token} {expr : Expr} (isOpening : opening.kind = .leftParen)
    (isClosing : closing.kind = .rightParen)
    (here : (joined Tier.all (inner opening.line)).Yields (used ++ closing :: rest) expr
      (closing :: rest)) :
    (prefixed inner).Yields (opening :: (used ++ closing :: rest)) expr rest := by
  have noSign : nextMatching (fun token : Token => (UnaryOp.ofKind? token.kind).map (·, token.line))
      (opening :: (used ++ closing :: rest)) = .ok none (opening :: (used ++ closing :: rest)) := by
    simp [nextMatching, isOpening, UnaryOp.ofKind?]
  refine Yields.bind (.inl noSign) (Yields.bind (.inl (next_eq_ok_some_iff.mpr rfl)) ?_)
  simp only [isOpening]
  exact here.bind ((yields_expect isClosing).bind (.inl rfl))

theorem prefixed_yields_unary {inner : Nat → Parser Expr} {sign : Token} {op : UnaryOp}
    {tokens rest : List Token} {operand : Expr} (reads : UnaryOp.ofKind? sign.kind = some op)
    (notLeast : ∀ token ∈ tokens.head?, leastMagnitude token = none)
    (here : (inner sign.line).Yields tokens operand rest) :
    (prefixed inner).Yields (sign :: tokens) (.unary op operand sign.line) rest := by
  refine Yields.bind (.inl (nextMatching_eq_ok_some_iff.mpr ⟨sign, rfl, by rw [reads]; rfl⟩)) ?_
  cases op with
  | negate =>
      have noNumeral := nextMatching_eq_ok_none_iff.mpr ⟨rfl, notLeast⟩
      exact Yields.bind (.inl noNumeral) (here.bind (.inl rfl))
  | not => exact here.bind (.inl rfl)

/-- By induction on the phrase, at whatever depth it is read: the parser holds its tree when it has
    taken it. -/
theorem Phrase.holds {limits : Limits} {tiers : List Tier} {opened : Nat} {used : List Token}
    {expr : Expr} (phrase : Phrase limits tiers opened used expr) (distinct : tiers.Nodup)
    (depth : Nat) (rest : List Token) (stops : Stops tiers.tail rest) :
    Holds (operand (roomAt depth)) used rest expr tiers := by
  induction phrase generalizing depth rest with
  | number isNumber denotes =>
      exact .inl ((operand_reads depth _ _ _).mpr
        ⟨_, rfl, .number isNumber denotes, stops_nil rest⟩)
  | name isName =>
      exact .inl ((operand_reads depth _ _ _).mpr ⟨_, rfl, .name isName, stops_nil rest⟩)
  | least isMinus isNumber denotes =>
      exact .inl ((operand_reads depth _ _ _).mpr
        ⟨_, rfl, .least isMinus isNumber denotes, stops_nil rest⟩)
  | @parens _ opening closing used expr isOpening _ _ isClosing ih =>
      have closes : Stops Tier.all (closing :: rest) :=
        stops_of_no_operator (by rw [isClosing]; rfl)
      have inner := inside_yields
        (fun depth => (ih (by decide) depth (closing :: rest) closes.tail).yields closes)
      have here := prefixed_yields_parens isOpening isClosing (inner depth opening.line)
      simp only [Holds, operand_eq, List.append_assoc]
      exact here
  | @unary _ sign op used operand reads _ phrase ih =>
      have inner := @inside_yields [] _ _ _
        (fun depth => (ih List.nodup_nil depth rest (stops_nil rest)).yields (stops_nil rest))
      simp only [Holds, operand_eq]
      exact prefixed_yields_unary reads phrase.leastMagnitude_eq_none (inner depth sign.line)
  | @tighter tier _ _ _ _ _ ih =>
      obtain ⟨_, distinct⟩ := List.nodup_cons.mp distinct
      exact (ih distinct depth rest stops.tail).tighter stops tier
  | @binary tier tiers _ _ usedRight _ _ sign op _ reads atTier _ _ ihl ihr =>
      obtain ⟨looser, distinctRight⟩ := List.nodup_cons.mp distinct
      have isOperator := operatorOf_eq_some_iff.mpr ⟨reads, atTier, rfl⟩
      have left := ihl distinct depth (sign :: usedRight ++ rest)
        (stops_at_operator reads atTier looser)
      have right := (ihr distinctRight depth rest stops.tail).yields stops
      exact left.binary isOperator right

theorem Phrase.yields {limits : Limits} {opened : Nat} {used rest : List Token} {expr : Expr}
    (phrase : Phrase limits Tier.all opened used expr) (stops : Stops Tier.all rest) (depth : Nat) :
    (parser (roomAt depth)).Yields (used ++ rest) expr rest :=
  (phrase.holds (by decide) depth rest stops.tail).yields stops

end Expr

open TinyImp.Parser

namespace Statement

theorem enclosed_yields {limits : Limits} {opened : Nat} {used : List Token} {expr : Expr}
    (enclosed : Expr.Enclosed limits opened used expr) (depth : Nat) (rest : List Token) :
    (Statement.enclosed (roomAt depth)).Yields (used ++ rest) expr rest := by
  cases enclosed with
  | @parens opening closing used _ isOpening phrase isClosing =>
      have closes : Expr.Stops Tier.all (closing :: rest) :=
        Expr.stops_of_no_operator (by rw [isClosing]; rfl)
      rw [List.append_assoc]
      exact (yields_expect isOpening).bind ((phrase.yields closes depth).bind
        ((yields_expect isClosing).bind (.inl rfl)))

end Statement

namespace Block

open Statement (NoElse)

/-- Braces open a level for the row of statements between them. -/
theorem parser_yields {opening closing : Token} {used rest : List Token} {block : Block}
    (isOpening : opening.kind = .leftBrace)
    (row : ∀ depth, (many (furtherStatement (Statement.parser (roomAt depth)) opening.line)).Yields
      (used ++ closing :: rest) block rest) (depth : Nat) :
    (parser (roomAt depth)).Yields (opening :: used ++ [closing] ++ rest) block rest := by
  rw [List.append_assoc]
  cases left : roomAt depth with
  | zero => exact (yields_expect isOpening).bind (.inr (limited_fail _ _))
  | succ room =>
      have here := row (depth + 1)
      rw [roomAt_succ left] at here
      exact (yields_expect isOpening).bind here

/-- A loop comes to a row of statements if its rounds come to each of them. -/
theorem Row.yieldsEach {limits : Limits} {opened : Nat} {used ended rest : List Token}
    {block : Block} {statement : Parser Statement} {item : Parser (Option Statement)}
    (row : Row limits opened used block)
    (members : ∀ first ∈ block, ∀ used rest, Statement.Phrase limits opened used first →
      NoElse rest → statement.Yields (used ++ rest) first rest)
    (step : ∀ token others first mid, token.kind ∈ Statement.firstKinds →
      statement.Yields (token :: others) first mid → item.Yields (token :: others) (some first) mid)
    (stop : item ended = .ok none rest) (noElse : NoElse ended) :
    YieldsEach item (used ++ ended) block rest := by
  induction block generalizing used with
  | nil =>
      cases row
      exact .done stop
  | cons first block ih =>
      cases row with
      | @cons _ usedFirst used _ _ phrase row =>
          obtain ⟨memberFirst, membersRest⟩ := List.forall_mem_cons.mp members
          have here := memberFirst _ _ phrase (row.noElse noElse)
          obtain ⟨token, others, rfl, isFirst⟩ := phrase.starts
          rw [List.append_assoc]
          refine .more (step _ _ _ _ isFirst here) ?_ (ih row membersRest)
          simp only [List.length_append, List.length_cons]
          omega

theorem furtherStatement_yields {statement : Parser Statement} {first : Statement} {token : Token}
    {others mid : List Token} (line : Nat) (isFirst : token.kind ∈ Statement.firstKinds)
    (here : statement.Yields (token :: others) first mid) :
    (furtherStatement statement line).Yields (token :: others) (some first) mid := by
  have notClosing : nextIf .rightBrace (token :: others) = .ok none (token :: others) := by
    refine nextIf_eq_ok_none_iff.mpr ⟨rfl, ?_⟩
    intro head isHead
    cases isHead
    exact Statement.ne_of_mem_firstKinds isFirst (by decide)
  have looked : peek (token :: others) = .ok (some token) (token :: others) := rfl
  exact Yields.bind (.inl notClosing) (Yields.bind (.inl looked) (here.bind (.inl rfl)))

end Block

/-- Wherever its phrases stand, the parser comes to the statement, unless a limit stops it. -/
def Statement.Yielded (statement : Statement) : Prop :=
  ∀ depth limits opened used rest, Statement.Phrase limits opened used statement →
    Statement.NoElse rest → (Statement.parser (roomAt depth)).Yields (used ++ rest) statement rest

theorem Block.Phrase.yields {limits : Limits} {opened : Nat} {used : List Token} {block : Block}
    (phrase : Block.Phrase limits opened used block) (members : ∀ first ∈ block, first.Yielded)
    (depth : Nat) (rest : List Token) :
    (Block.parser (roomAt depth)).Yields (used ++ rest) block rest := by
  cases phrase with
  | @braces _ opening closing used _ isOpening _ row isClosing =>
      apply Block.parser_yields isOpening
      intro depth
      have noElse : Statement.NoElse (closing :: rest) := by
        intro token isToken
        cases isToken
        rw [isClosing]
        decide
      have each := row.yieldsEach (fun first member => members first member depth limits _)
        (fun _ _ _ _ => Block.furtherStatement_yields opening.line)
        (Block.furtherStatement_eq_ok_none_iff.mpr ⟨closing, rfl, isClosing⟩) noElse
      exact each.many

namespace Statement

theorem branchParser_yields {block : Parser Block} {word : Token} {condition : Expr}
    {whenTrue whenFalse : Block} {room : Nat} {tokens mid beyond rest : List Token}
    (isWord : word.kind = .ifWord) (tested : (enclosed room).Yields tokens condition mid)
    (chosen : block.Yields mid whenTrue beyond)
    (ending : (∃ elseWord others, beyond = elseWord :: others ∧ elseWord.kind = .elseWord ∧
        block.Yields others whenFalse rest) ∨
      beyond = rest ∧ NoElse rest ∧ whenFalse = []) :
    (branchParser block room).Yields (word :: tokens)
      (.branch condition whenTrue whenFalse word.line) rest := by
  refine (yields_expect isWord).bind (tested.bind (chosen.bind ?_))
  rcases ending with ⟨elseWord, others, rfl, isElse, otherwise⟩ | ⟨rfl, noElse, rfl⟩
  · have taken : nextIf .elseWord (elseWord :: others) = .ok (some elseWord) others :=
      nextIf_eq_ok_some_iff.mpr ⟨rfl, isElse⟩
    exact Yields.bind (.inl taken) (otherwise.bind (.inl rfl))
  · exact Yields.bind (.inl (nextIf_eq_ok_none_iff.mpr ⟨rfl, noElse⟩)) (.inl rfl)

/-- By induction on the statement, whose blocks hold smaller ones. -/
theorem yielded (statement : Statement) : statement.Yielded := by
  intro depth limits opened used rest phrase noElse
  cases phrase with
  | @declare _ word first used names isWord isName further =>
      have here : declaration.Yields (word :: first :: used ++ rest) _ rest :=
        .inl (declaration_eq_ok_iff.mpr ⟨_, _, _, _, rfl, isWord, isName, further, rfl⟩)
      apply here.of_eq
      simp only [parser, parserWith, peek_bind, List.cons_append, List.head?_cons, isWord]
  | @assign _ target equals semicolon used value isName isEquals phrase isSemicolon =>
      have closes : Expr.Stops Tier.all (semicolon :: rest) :=
        Expr.stops_of_no_operator (by rw [isSemicolon]; rfl)
      have named : identifier (target :: equals :: (used ++ semicolon :: rest)) =
          .ok target (equals :: (used ++ semicolon :: rest)) :=
        identifier_eq_ok_iff.mpr ⟨rfl, isName⟩
      have here : (assignment (roomAt depth)).Yields _ _ rest :=
        Yields.bind (.inl named) ((yields_expect isEquals).bind
          ((phrase.yields closes depth).bind ((yields_expect isSemicolon).bind (.inl rfl))))
      apply here.of_eq
      simp only [parser, parserWith, peek_bind, List.cons_append, List.append_assoc,
        List.head?_cons, isName, List.nil_append]
  | @print _ word semicolon used value isWord enclosed isSemicolon =>
      have here : (printing (roomAt depth)).Yields _ _ rest :=
        (yields_expect isWord).bind ((enclosed_yields enclosed depth (semicolon :: rest)).bind
          ((yields_expect isSemicolon).bind (.inl rfl)))
      apply here.of_eq
      simp only [parser, parserWith, peek_bind, List.cons_append, List.append_assoc,
        List.head?_cons, isWord, List.nil_append]
  | @loop _ word used usedBody condition body isWord enclosed phrase =>
      have members : ∀ first ∈ body, first.Yielded := fun first _ => yielded first
      have here : (loopParser (Block.parser (roomAt depth)) (roomAt depth)).Yields _ _ rest :=
        (yields_expect isWord).bind ((enclosed_yields enclosed depth _).bind
          ((phrase.yields members depth rest).bind (.inl rfl)))
      apply here.of_eq
      simp only [parser, parserWith, peek_bind, List.cons_append, List.append_assoc,
        List.head?_cons, isWord]
  | @branch _ word used usedTrue condition whenTrue isWord enclosed phrase =>
      have members : ∀ first ∈ whenTrue, first.Yielded := fun first _ => yielded first
      have here := branchParser_yields isWord (enclosed_yields enclosed depth _)
        (phrase.yields members depth rest) (.inr ⟨rfl, noElse, rfl⟩)
      apply here.of_eq
      simp only [parser, parserWith, peek_bind, List.cons_append, List.append_assoc,
        List.head?_cons, isWord]
  | @branchElse _ word elseWord used usedTrue usedFalse condition whenTrue whenFalse isWord
      enclosed phraseTrue isElse phraseFalse =>
      have membersTrue : ∀ first ∈ whenTrue, first.Yielded := fun first _ => yielded first
      have membersFalse : ∀ first ∈ whenFalse, first.Yielded := fun first _ => yielded first
      have here := branchParser_yields isWord (enclosed_yields enclosed depth _)
        (phraseTrue.yields membersTrue depth (elseWord :: (usedFalse ++ rest)))
        (.inl ⟨_, _, rfl, isElse, phraseFalse.yields membersFalse depth rest⟩)
      apply here.of_eq
      simp only [parser, parserWith, peek_bind, List.cons_append, List.append_assoc,
        List.head?_cons, isWord]
termination_by sizeOf statement

end Statement

theorem Program.Phrase.yields {limits : Limits} {tokens : List Token} {program : Program}
    (phrase : Program.Phrase limits tokens program) :
    Program.parser.Yields tokens program [] := by
  have step : ∀ token others first mid, token.kind ∈ Statement.firstKinds →
      (Statement.parser (roomAt 0)).Yields (token :: others) first mid →
      Program.furtherStatement.Yields (token :: others) (some first) mid := by
    intro token others first mid _ here
    have looked : peek (token :: others) = .ok (some token) (token :: others) := rfl
    exact Yields.bind (.inl looked) (here.bind (.inl rfl))
  have noElse : Statement.NoElse [] := by
    intro token isToken
    cases isToken
  have each := Block.Row.yieldsEach phrase (fun first _ => first.yielded 0 limits 0) step
    (Program.furtherStatement_eq_ok_none_iff.mpr ⟨rfl, rfl⟩) noElse
  rw [List.append_nil] at each
  exact each.many

theorem Program.ofTokens_of_limited {tokens : List Token}
    (limited : Limited Program.parser tokens) :
    ∃ line, Program.ofTokens tokens = .error { fault := .nestingTooDeep, line } := by
  obtain ⟨line, left, stopped⟩ := limited
  refine ⟨line, ?_⟩
  unfold Program.ofTokens
  rw [stopped]
  rfl

theorem Expr.ofTokensAt_of_limited {tokens : List Token} {start : Nat}
    (limited : Limited (Expr.parser (roomAt 0)) (tokens.drop start)) :
    ∃ line, Expr.ofTokensAt tokens start = .error { fault := .nestingTooDeep, line } := by
  obtain ⟨line, left, stopped⟩ := limited
  refine ⟨line, ?_⟩
  unfold Expr.ofTokensAt
  rw [stopped]
  rfl

theorem Expr.ofTokensAt_low {tokens : List Token} {start next : Nat} {expr : Expr}
    (parsed : Expr.ofTokensAt tokens start = .ok (expr, next)) : expr.Low := by
  obtain ⟨_, _, _, _, _, _, phrase, _⟩ := Expr.ofTokensAt_eq_ok_iff.mp parsed
  exact phrase.low

namespace LongSum

def name : Token := ⟨⟨1, 1⟩, .identifier, "x"⟩

/-- The tokens of `x + … + x` with so many signs. -/
def tokens : Nat → List Token
  | 0 => [name]
  | signs + 1 => tokens signs ++ [⟨⟨1, 1⟩, .plus, "+"⟩, name]

def tree : Nat → Expr
  | 0 => .var "x" 1
  | signs + 1 => .binary .add (tree signs) (.var "x" 1) 1

theorem tree_height (signs : Nat) : (tree signs).height = signs + 1 := by
  induction signs with
  | zero => rfl
  | succ signs ih =>
      simp only [tree, Expr.height, ih]
      omega

theorem tree_bare (signs : Nat) : (tree signs).bare = tree signs := by
  cases signs <;> rfl

theorem tree_low_iff (signs : Nat) : (tree signs).Low ↔ signs < maxHeight := by
  unfold Expr.Low
  rw [tree_bare, tree_height]
  exact Nat.succ_le_iff

theorem phrase {limits : Limits} {signs : Nat} (low : signs < limits.height) (depth : Nat) :
    Expr.Phrase limits Tier.all depth (tokens signs) (tree signs) := by
  have additive : Expr.Phrase limits [.additive, .multiplicative] depth (tokens signs)
      (tree signs) := by
    induction signs with
    | zero => exact .tighter (.tighter (.name rfl))
    | succ signs ih =>
        have heightHere : (tree (signs + 1)).height ≤ limits.height := by
          rw [tree_height]
          exact low
        exact .binary (ih (Nat.lt_of_succ_lt low)) rfl rfl (.tighter (.name rfl)) heightHere
  exact .tighter (.tighter (.tighter (.tighter additive)))

/-- The tokens of `-(…)` around these. -/
def negated (used : List Token) : List Token :=
  ⟨⟨1, 1⟩, .minus, "-"⟩ :: (⟨⟨1, 1⟩, .leftParen, "("⟩ :: used ++ [⟨⟨1, 1⟩, .rightParen, ")"⟩])

theorem negated_phrase {limits : Limits} {depth : Nat} {used : List Token} {expr : Expr}
    (phrase : Expr.Phrase limits Tier.all (depth + 2) used expr) (below : depth + 1 < limits.nesting) :
    Expr.Phrase limits Tier.all depth (negated used) (.unary .negate expr 1) := by
  have operand : Expr.Phrase limits [] depth (negated used) (.unary .negate expr 1) :=
    .unary rfl (Nat.lt_of_succ_lt below) (.parens rfl below phrase rfl)
  exact .tighter (.tighter (.tighter (.tighter (.tighter (.tighter operand)))))

/-- The tokens of a statement that prints what these tokens spell. -/
def printed (used : List Token) : List Token :=
  ⟨⟨1, 1⟩, .printWord, "print"⟩ :: (⟨⟨1, 1⟩, .leftParen, "("⟩ :: used ++
    [⟨⟨1, 1⟩, .rightParen, ")"⟩]) ++ [⟨⟨1, 1⟩, .semicolon, ";"⟩]

theorem printed_phrase {limits : Limits} {used : List Token} {expr : Expr}
    (phrase : Expr.Phrase limits Tier.all 0 used expr) :
    Program.Phrase limits (printed used) [.print expr 1] := by
  have statement : Statement.Phrase limits 0 (printed used) (.print expr 1) :=
    .print rfl (.parens rfl phrase rfl) rfl
  have row := Block.Row.cons statement .nil
  rw [List.append_nil] at row
  exact row

end LongSum

/-- The limit on height leaves out the prefix operators at the root of an expression. Below them no
    accepted expression is too high, in a program or on its own. Tokens that spell one which is too
    high even there, under limits of any kind, are refused for their nesting; tokens that keep both
    limits are accepted. -/
theorem height_is_limited_below_leading_prefixes (tokens : List Token) :
    (∀ program, Program.ofTokens tokens = .ok program →
      ∀ expr ∈ Block.exprs program, expr.Low) ∧
    (∀ start expr next, Expr.ofTokensAt tokens start = .ok (expr, next) → expr.Low) ∧
    (∀ limits program, Program.Phrase limits tokens program →
      (limits.nesting ≤ maxNesting → (∀ expr ∈ Block.exprs program, expr.Low) →
        Program.ofTokens tokens = .ok program) ∧
      ((∃ expr ∈ Block.exprs program, ¬ expr.Low) →
        ∃ line, Program.ofTokens tokens = .error { fault := .nestingTooDeep, line })) ∧
    ∀ start limits used rest expr, tokens.drop start = used ++ rest →
      Expr.Phrase limits Tier.all 0 used expr → Expr.Stops Tier.all rest →
      (limits.nesting ≤ maxNesting → expr.Low →
        Expr.ofTokensAt tokens start = .ok (expr, tokens.length - rest.length)) ∧
      (¬ expr.Low →
        ∃ line, Expr.ofTokensAt tokens start = .error { fault := .nestingTooDeep, line }) := by
  have accepted : ∀ program, Program.ofTokens tokens = .ok program →
      ∀ expr ∈ Block.exprs program, expr.Low := by
    intro program parsed
    have row : Block.Row .standard 0 tokens program := Program.ofTokens_eq_ok_iff.mp parsed
    exact row.low
  refine ⟨accepted, fun _ _ _ => Expr.ofTokensAt_low, ?programs, ?expressions⟩
  case programs =>
    intro limits program phrase
    constructor
    · intro few low
      exact Program.ofTokens_eq_ok_iff.mpr (Block.Row.standard_of_low phrase few low)
    · rintro ⟨expr, member, high⟩
      cases phrase.yields with
      | inr limited => exact Program.ofTokens_of_limited limited
      | inl done =>
          have parsed : Program.ofTokens tokens = .ok program := by
            unfold Program.ofTokens
            rw [done]
          exact absurd (accepted program parsed expr member) high
  case expressions =>
    intro start limits used rest expr split phrase stops
    constructor
    · intro few low
      have done := (Expr.parser_reads 0 _ _ _).mpr
        ⟨used, split, phrase.standard_of_low few low, stops⟩
      unfold Expr.ofTokensAt
      rw [done]
    · intro high
      have yields := phrase.yields stops 0
      rw [← split] at yields
      cases yields with
      | inr limited => exact Expr.ofTokensAt_of_limited limited
      | inl done =>
          have parsed : Expr.ofTokensAt tokens start =
              .ok (expr, tokens.length - rest.length) := by
            unfold Expr.ofTokensAt
            rw [done]
          exact absurd (Expr.ofTokensAt_low parsed) high

/-- The sum of 257 names is too high and is refused, while that of 256 is accepted. -/
theorem sums_on_both_sides_of_the_limit :
    ¬ (LongSum.tree 256).Low ∧
    (∃ line, Program.ofTokens (LongSum.printed (LongSum.tokens 256)) =
      .error { fault := .nestingTooDeep, line }) ∧
    (LongSum.tree 255).Low ∧
    Program.ofTokens (LongSum.printed (LongSum.tokens 255)) =
      .ok [.print (LongSum.tree 255) 1] := by
  have high : ¬ (LongSum.tree 256).Low := by
    rw [LongSum.tree_low_iff]
    decide
  have low : (LongSum.tree 255).Low := (LongSum.tree_low_iff 255).mpr (by decide)
  obtain ⟨_, _, refused, _⟩ :=
    height_is_limited_below_leading_prefixes (LongSum.printed (LongSum.tokens 256))
  obtain ⟨_, _, accepted, _⟩ :=
    height_is_limited_below_leading_prefixes (LongSum.printed (LongSum.tokens 255))
  refine ⟨high, ?_, low, ?_⟩
  · have phrase : Expr.Phrase ⟨0, 257⟩ Tier.all 0 _ _ := LongSum.phrase (Nat.lt_succ_self 256) 0
    exact (refused _ _ (LongSum.printed_phrase phrase)).2
      ⟨LongSum.tree 256, List.mem_singleton_self _, high⟩
  · have phrase : Expr.Phrase ⟨0, 256⟩ Tier.all 0 _ _ := LongSum.phrase (Nat.lt_succ_self 255) 0
    exact (accepted _ _ (LongSum.printed_phrase phrase)).1 (Nat.zero_le _)
      (List.forall_mem_singleton.mpr low)

/-- Under a minus sign the sum of 256 names is accepted too, although that makes it too high. -/
theorem negated_sum_exceeds_the_limit :
    Program.ofTokens (LongSum.printed (LongSum.negated (LongSum.tokens 255))) =
      .ok [.print (.unary .negate (LongSum.tree 255) 1) 1] ∧
    maxHeight < (Expr.unary .negate (LongSum.tree 255) 1).height := by
  have height : (Expr.unary .negate (LongSum.tree 255) 1).height = 257 := by
    rw [Expr.height, LongSum.tree_height]
  have sum : Expr.Phrase .standard Tier.all 2 _ _ := LongSum.phrase (by decide : 255 < maxHeight) 2
  have negated := LongSum.negated_phrase sum (by decide)
  constructor
  · exact Program.ofTokens_eq_ok_iff.mpr (LongSum.printed_phrase negated)
  · rw [height]
    decide

end TinyImp
