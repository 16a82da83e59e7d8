import TinyImp.Expr.Parser
import TinyImp.Proofs.Grammar
import TinyImp.Proofs.Parsers

/-! # The expression parser reads the grammar

The grammar is left-recursive where the parser loops, so a derivation of some tier is first taken
apart into its leftmost operand and the row of operators after it. A parser of some tiers stops at
the first token that is no operator of theirs, and at that token only.
-/

namespace TinyImp

theorem Value.ofInt?_eq_some_iff {n : Int} {value : Value} :
    Value.ofInt? n = some value ↔ n = value.toInt := by
  simp only [Value.ofInt?, Option.ite_none_right_eq_some, Option.some.injEq]
  constructor
  · rintro ⟨⟨low, high⟩, rfl⟩
    rw [Int64.toInt_ofInt_of_le low (Int.lt_add_one_of_le high)]
  · rintro rfl
    exact ⟨⟨value.le_toInt, Int.le_of_lt_add_one value.toInt_lt⟩, Int64.ofInt_toInt value⟩

theorem Value.ofDecimal?_eq_some_iff {numeral : String} {value : Value} :
    Value.ofDecimal? numeral = some value ↔
      Decimal.signed? numeral.toList = some value.toInt := by
  simp only [Value.ofDecimal?, Option.bind_eq_some_iff, Value.ofInt?_eq_some_iff]
  grind

theorem Decimal.signed?_of_unsigned? {numeral : List Char} {n : Nat}
    (reads : Decimal.unsigned? numeral = some n) : Decimal.signed? numeral = some (n : Int) := by
  unfold Decimal.unsigned? at reads
  unfold Decimal.signed?
  split at reads
  next digits => simp [reads]
  next noPlus =>
    split
    next digits => exact absurd rfl (noPlus digits)
    next digits => simp [Decimal.nat?] at reads
    next => simp [reads]

theorem Tier.mem_all (tier : Tier) : tier ∈ Tier.all := by
  cases tier <;> decide

namespace Expr

open TinyImp.Parser

theorem height_pos (expr : Expr) : 0 < expr.height := by
  cases expr with
  | const value line => simp [height]
  | var name line => simp [height]
  | unary op operand line => simp only [height]; omega
  | binary op left right line => simp only [height]; omega

theorem height_left_lt (op : BinaryOp) (left right : Expr) (line : Nat) :
    left.height < (Expr.binary op left right line).height := by
  simp only [height]
  omega

theorem operatorOf_eq_some_iff {tier : Tier} {token : Token} {op : BinaryOp} {line : Nat} :
    operatorOf tier token = some (op, line) ↔
      BinaryOp.ofKind? token.kind = some op ∧ op.tier = tier ∧ line = token.line := by
  unfold operatorOf
  grind

theorem operatorOf_eq_none_iff {tier : Tier} {token : Token} :
    operatorOf tier token = none ↔
      ∀ op, BinaryOp.ofKind? token.kind = some op → op.tier ≠ tier := by
  unfold operatorOf
  grind

theorem leastMagnitude_eq_some_iff {token : Token} {line : Nat} :
    leastMagnitude token = some line ↔
      token.kind = .number ∧ Decimal.unsigned? token.lexeme.toList = some (2 ^ 63) ∧
        line = token.line := by
  have magnitude : Value.least.toInt.natAbs = 2 ^ 63 := rfl
  rw [leastMagnitude, magnitude]
  grind

/-- What follows is no operator of these tiers. -/
def Stops (tiers : List Tier) (rest : List Token) : Prop :=
  ∀ token ∈ rest.head?, ∀ op, BinaryOp.ofKind? token.kind = some op → op.tier ∉ tiers

theorem stops_nil (rest : List Token) : Stops [] rest := by
  intro token _ op _
  simp

theorem stops_of_no_operator {tiers : List Tier} {token : Token} {rest : List Token}
    (noOperator : BinaryOp.ofKind? token.kind = none) : Stops tiers (token :: rest) := by
  intro first isFirst op reads
  cases isFirst
  rw [noOperator] at reads
  cases reads

theorem stops_cons_iff {tier : Tier} {tiers : List Tier} {rest : List Token} :
    Stops (tier :: tiers) rest ↔
      (∀ token ∈ rest.head?, operatorOf tier token = none) ∧ Stops tiers rest := by
  simp only [Stops, operatorOf_eq_none_iff, List.mem_cons, not_or]
  grind

theorem stops_at_operator {tier : Tier} {tiers : List Tier} {token : Token} {op : BinaryOp}
    {rest : List Token} (reads : BinaryOp.ofKind? token.kind = some op) (atTier : op.tier = tier)
    (looser : tier ∉ tiers) : Stops tiers (token :: rest) := by
  intro first isFirst other readsOther
  cases isFirst
  rw [reads] at readsOther
  cases readsOther
  rw [atTier]
  exact looser

/-- The parser takes a longest phrase of the tiers from the front, and leaves the rest. -/
def Reads (tiers : List Tier) (depth : Nat) (parser : Parser Expr) : Prop :=
  ∀ tokens expr rest,
    parser tokens = .ok expr rest ↔
      ∃ used, tokens = used ++ rest ∧ Phrase .standard tiers depth used expr ∧ Stops tiers rest

/-- How `left` grows to a whole expression by operators of one tier and their right operands. -/
inductive Grows (tier : Tier) (tiers : List Tier) (depth : Nat) :
    Expr → List Token → Expr → Prop where
  | done {left : Expr} : Grows tier tiers depth left [] left
  | more {left right whole : Expr} {sign : Token} {op : BinaryOp} {usedRight used : List Token} :
      BinaryOp.ofKind? sign.kind = some op →
      op.tier = tier →
      Phrase .standard tiers depth usedRight right →
      (Expr.binary op left right sign.line).height ≤ maxHeight →
      Grows tier tiers depth (.binary op left right sign.line) used whole →
      Grows tier tiers depth left (sign :: usedRight ++ used) whole

theorem Grows.snoc {tier : Tier} {tiers : List Tier} {depth : Nat} {left mid right : Expr}
    {sign : Token} {op : BinaryOp} {used usedRight : List Token}
    (grows : Grows tier tiers depth left used mid)
    (reads : BinaryOp.ofKind? sign.kind = some op) (atTier : op.tier = tier)
    (rightPhrase : Phrase .standard tiers depth usedRight right)
    (low : (Expr.binary op mid right sign.line).height ≤ maxHeight) :
    Grows tier tiers depth left (used ++ sign :: usedRight) (.binary op mid right sign.line) := by
  induction grows with
  | done =>
      have grown := Grows.more reads atTier rightPhrase low .done
      rwa [List.append_nil] at grown
  | more readsFirst atTierFirst firstPhrase lowFirst grows ih =>
      rw [List.append_assoc]
      exact .more readsFirst atTierFirst firstPhrase lowFirst (ih low)

theorem Phrase.grow {tier : Tier} {tiers : List Tier} {depth : Nat} {usedLeft used : List Token}
    {left whole : Expr} (leftPhrase : Phrase .standard (tier :: tiers) depth usedLeft left)
    (grows : Grows tier tiers depth left used whole) :
    Phrase .standard (tier :: tiers) depth (usedLeft ++ used) whole := by
  induction grows generalizing usedLeft with
  | done => rwa [List.append_nil]
  | more reads atTier rightPhrase low grows ih =>
      have grown := ih (.binary leftPhrase reads atTier rightPhrase low)
      simpa only [List.append_assoc, List.cons_append] using grown

theorem phrase_cons_iff {tier : Tier} {tiers : List Tier} {depth : Nat} {tokens : List Token}
    {whole : Expr} :
    Phrase .standard (tier :: tiers) depth tokens whole ↔
      ∃ first usedFirst used, tokens = usedFirst ++ used ∧
        Phrase .standard tiers depth usedFirst first ∧ Grows tier tiers depth first used whole := by
  constructor
  · intro phrase
    -- The leftmost operand is reached through the left operands, which stay at this tier.
    generalize levels : tier :: tiers = all at phrase
    induction phrase with
    | number | name | parens | least | unary => cases levels
    | @tighter _ _ _ used expr phrase =>
        cases levels
        exact ⟨expr, used, [], (List.append_nil used).symm, phrase, .done⟩
    | binary leftPhrase reads atTier rightPhrase low ihLeft ihRight =>
        cases levels
        obtain ⟨first, usedFirst, used, rfl, firstPhrase, grows⟩ := ihLeft rfl
        exact ⟨first, usedFirst, _, List.append_assoc .., firstPhrase,
          grows.snoc reads atTier rightPhrase low⟩
  · rintro ⟨first, usedFirst, used, rfl, firstPhrase, grows⟩
    exact firstPhrase.tighter.grow grows

/-- The operand before a row of operators ends where the row begins, also if the row is empty. -/
theorem Grows.stops_before {tier : Tier} {tiers : List Tier} {depth : Nat} {left whole : Expr}
    {used rest : List Token} (grows : Grows tier tiers depth left used whole)
    (looser : tier ∉ tiers) (stops : Stops (tier :: tiers) rest) : Stops tiers (used ++ rest) := by
  cases grows with
  | done => exact (stops_cons_iff.mp stops).2
  | more reads atTier => exact stops_at_operator reads atTier looser

/-- Every round makes the tree higher, so the rounds outlast the trees that are low enough. -/
theorem chainWithin_eq_ok_iff {tier : Tier} {tiers : List Tier} {depth : Nat}
    {operand : Parser Expr} (looser : tier ∉ tiers) (reads : Reads tiers depth operand)
    (rounds : Nat) (left : Expr) (tokens : List Token) (whole : Expr) (rest : List Token)
    (positive : 0 < rounds) (enough : maxHeight < left.height + rounds)
    (stopped : Stops tiers tokens) :
    chainWithin tier operand rounds left tokens = .ok whole rest ↔
      ∃ used, tokens = used ++ rest ∧ Grows tier tiers depth left used whole ∧
        Stops (tier :: tiers) rest := by
  induction rounds generalizing left tokens with
  | zero => omega
  | succ rounds ih =>
      simp only [chainWithin, bind_eq_ok_iff]
      constructor
      · rintro ⟨found, mid, taken, after⟩
        cases found with
        | none =>
            obtain ⟨rfl, rfl⟩ := pure_eq_ok_iff.mp after
            obtain ⟨rfl, noOperator⟩ := nextMatching_eq_ok_none_iff.mp taken
            exact ⟨[], rfl, .done, stops_cons_iff.mpr ⟨noOperator, stopped⟩⟩
        | some found =>
            obtain ⟨op, line⟩ := found
            obtain ⟨sign, rfl, isOperator⟩ := nextMatching_eq_ok_some_iff.mp taken
            obtain ⟨readsOp, atTier, rfl⟩ := operatorOf_eq_some_iff.mp isOperator
            obtain ⟨right, beyond, readsRight, checked⟩ := bind_eq_ok_iff.mp after
            obtain ⟨usedRight, rfl, rightPhrase, stoppedRight⟩ := (reads _ _ _).mp readsRight
            split at checked
            next low =>
              -- The tree is still low, so the bound on rounds and height leaves another round.
              have higher := height_left_lt op left right sign.line
              obtain ⟨used, rfl, grows, stops⟩ :=
                (ih _ beyond (by omega) (by omega) stoppedRight).mp checked
              exact ⟨sign :: usedRight ++ used, by simp, .more readsOp atTier rightPhrase low grows,
                stops⟩
            next => exact absurd checked fail_ne_ok
      · rintro ⟨used, rfl, grows, stops⟩
        cases grows with
        | done =>
            exact ⟨none, rest, nextMatching_eq_ok_none_iff.mpr ⟨rfl, (stops_cons_iff.mp stops).1⟩,
              pure_eq_ok_iff.mpr ⟨rfl, rfl⟩⟩
        | @more _ right _ sign op usedRight used readsOp atTier rightPhrase low grows =>
            have higher := height_left_lt op left right sign.line
            have stoppedRight := grows.stops_before looser stops
            refine ⟨some (op, sign.line), usedRight ++ (used ++ rest),
              nextMatching_eq_ok_some_iff.mpr ⟨sign, by simp, ?_⟩, ?_⟩
            · exact operatorOf_eq_some_iff.mpr ⟨readsOp, atTier, rfl⟩
            · refine bind_eq_ok_iff.mpr ⟨right, used ++ rest, ?_, ?_⟩
              · exact (reads _ _ _).mpr ⟨usedRight, rfl, rightPhrase, stoppedRight⟩
              · simp only [low, if_true]
                exact (ih _ _ (by omega) (by omega) stoppedRight).mpr ⟨used, rfl, grows, stops⟩

theorem chain_reads {tier : Tier} {tiers : List Tier} {depth : Nat} {operand : Parser Expr}
    (looser : tier ∉ tiers) (reads : Reads tiers depth operand) :
    Reads (tier :: tiers) depth (chain tier operand) := by
  intro tokens whole rest
  have loop : ∀ (first : Expr) (mid : List Token), Stops tiers mid →
      (chainWithin tier operand maxHeight first mid = .ok whole rest ↔
        ∃ used, mid = used ++ rest ∧ Grows tier tiers depth first used whole ∧
          Stops (tier :: tiers) rest) := by
    intro first mid stopped
    have positive := first.height_pos
    exact chainWithin_eq_ok_iff looser reads maxHeight first mid whole rest (by decide) (by omega)
      stopped
  simp only [chain, bind_eq_ok_iff, phrase_cons_iff]
  constructor
  · rintro ⟨first, mid, readsFirst, after⟩
    obtain ⟨usedFirst, rfl, firstPhrase, stopped⟩ := (reads _ _ _).mp readsFirst
    obtain ⟨used, rfl, grows, stops⟩ := (loop first mid stopped).mp after
    exact ⟨usedFirst ++ used, (List.append_assoc ..).symm,
      ⟨first, usedFirst, used, rfl, firstPhrase, grows⟩, stops⟩
  · rintro ⟨_, rfl, ⟨first, usedFirst, used, rfl, firstPhrase, grows⟩, stops⟩
    have stopped := grows.stops_before looser stops
    refine ⟨first, used ++ rest, ?_, ?_⟩
    · exact (reads _ _ _).mpr ⟨usedFirst, List.append_assoc .., firstPhrase, stopped⟩
    · exact (loop first _ stopped).mpr ⟨used, rfl, grows, stops⟩

theorem joined_reads {tiers : List Tier} {depth : Nat} {operand : Parser Expr}
    (distinct : tiers.Nodup) (reads : Reads [] depth operand) :
    Reads tiers depth (joined tiers operand) := by
  induction tiers with
  | nil => exact reads
  | cons tier tiers ih =>
      obtain ⟨looser, distinct⟩ := List.nodup_cons.mp distinct
      exact chain_reads looser (ih distinct)

theorem joined_ne_ok {tiers : List Tier} {operand : Parser Expr}
    (fails : ∀ tokens expr rest, operand tokens ≠ .ok expr rest) (tokens : List Token)
    (expr : Expr) (rest : List Token) : joined tiers operand tokens ≠ .ok expr rest := by
  induction tiers generalizing expr rest with
  | nil => exact fails tokens expr rest
  | cons tier tiers ih =>
      intro succeeds
      obtain ⟨first, mid, readsFirst, _⟩ := bind_eq_ok_iff.mp succeeds
      exact ih first mid readsFirst

/-- The magnitude of the least value begins no operand. -/
theorem Phrase.leastMagnitude_eq_none {limits : Limits} {depth : Nat} {used rest : List Token}
    {operand : Expr} (phrase : Phrase limits [] depth used operand) :
    ∀ token ∈ (used ++ rest).head?, leastMagnitude token = none := by
  intro token isFirst
  rw [Option.eq_none_iff_forall_ne_some]
  intro line isLeast
  obtain ⟨isNumber, magnitude, _⟩ := leastMagnitude_eq_some_iff.mp isLeast
  cases phrase with
  | @number _ _ value _ denotes =>
      cases isFirst
      rw [Decimal.signed?_of_unsigned? magnitude] at denotes
      have upper := value.toInt_lt
      have same := Option.some.inj denotes
      omega
  | name isName => cases isFirst; rw [isName] at isNumber; cases isNumber
  | parens isOpening => cases isFirst; rw [isOpening] at isNumber; cases isNumber
  | least isMinus => cases isFirst; rw [isMinus] at isNumber; cases isNumber
  | unary isSign => cases isFirst; rw [isNumber] at isSign; cases isSign

/-- What the parsers of an operand need of the one for the inside of a level. -/
structure Opens (depth : Nat) (inner : Nat → Parser Expr) : Prop where
  operand : ∀ line tokens expr rest,
    inner line tokens = .ok expr rest ↔
      depth < maxNesting ∧ ∃ used, tokens = used ++ rest ∧ Phrase .standard [] (depth + 1) used expr
  whole : ∀ line tokens expr rest,
    joined Tier.all (inner line) tokens = .ok expr rest ↔
      depth < maxNesting ∧ ∃ used, tokens = used ++ rest ∧
        Phrase .standard Tier.all (depth + 1) used expr ∧ Stops Tier.all rest

theorem primary_sound {depth : Nat} {inner : Nat → Parser Expr} (opens : Opens depth inner)
    {tokens : List Token} {expr : Expr} {rest : List Token}
    (succeeds : primary inner tokens = .ok expr rest) :
    ∃ used, tokens = used ++ rest ∧ Phrase .standard [] depth used expr := by
  obtain ⟨found, mid, taken, after⟩ := bind_eq_ok_iff.mp succeeds
  cases found with
  | none => exact absurd after fail_ne_ok
  | some token =>
      obtain rfl := next_eq_ok_some_iff.mp taken
      cases isKind : token.kind with
      | leftParen =>
          simp only [isKind, bind_eq_ok_iff, expect_eq_ok_iff, pure_eq_ok_iff, opens.whole] at after
          obtain ⟨_, _, ⟨room, used, rfl, phrase, _⟩, closing, _, ⟨rfl, isClosing⟩, rfl, rfl⟩ :=
            after
          exact ⟨token :: used ++ [closing], by simp, .parens isKind room phrase isClosing⟩
      | number =>
          cases denotes : Value.ofDecimal? token.lexeme with
          | none =>
              simp only [isKind, denotes] at after
              exact absurd after fail_ne_ok
          | some value =>
              simp only [isKind, denotes] at after
              obtain ⟨rfl, rfl⟩ := pure_eq_ok_iff.mp after
              exact ⟨[token], rfl, .number isKind (Value.ofDecimal?_eq_some_iff.mp denotes)⟩
      | identifier =>
          simp only [isKind] at after
          obtain ⟨rfl, rfl⟩ := pure_eq_ok_iff.mp after
          exact ⟨[token], rfl, .name isKind⟩
      | _ =>
          simp only [isKind] at after
          exact absurd after fail_ne_ok

theorem prefixed_sound {depth : Nat} {inner : Nat → Parser Expr} (opens : Opens depth inner)
    {tokens : List Token} {expr : Expr} {rest : List Token}
    (succeeds : prefixed inner tokens = .ok expr rest) :
    ∃ used, tokens = used ++ rest ∧ Phrase .standard [] depth used expr := by
  obtain ⟨found, mid, taken, after⟩ := bind_eq_ok_iff.mp succeeds
  cases found with
  | none =>
      obtain ⟨rfl, _⟩ := nextMatching_eq_ok_none_iff.mp taken
      exact primary_sound opens after
  | some found =>
      obtain ⟨op, line⟩ := found
      obtain ⟨sign, rfl, isSign⟩ := nextMatching_eq_ok_some_iff.mp taken
      obtain ⟨_, reads, same⟩ := Option.map_eq_some_iff.mp isSign
      cases same
      cases op with
      | negate =>
          obtain ⟨magnitude, beyond, taken, after⟩ := bind_eq_ok_iff.mp after
          cases magnitude with
          | none =>
              obtain ⟨rfl, _⟩ := nextMatching_eq_ok_none_iff.mp taken
              simp only [bind_eq_ok_iff, pure_eq_ok_iff, opens.operand] at after
              obtain ⟨_, _, ⟨room, used, rfl, phrase⟩, rfl, rfl⟩ := after
              exact ⟨sign :: used, rfl, .unary reads room phrase⟩
          | some line =>
              obtain ⟨magnitude, rfl, isLeast⟩ := nextMatching_eq_ok_some_iff.mp taken
              obtain ⟨isNumber, denotes, rfl⟩ := leastMagnitude_eq_some_iff.mp isLeast
              obtain ⟨rfl, rfl⟩ := pure_eq_ok_iff.mp after
              have isMinus : sign.kind = .minus := by
                unfold UnaryOp.ofKind? at reads
                grind
              exact ⟨[sign, magnitude], rfl, .least isMinus isNumber denotes⟩
      | not =>
          simp only [bind_eq_ok_iff, pure_eq_ok_iff, opens.operand] at after
          obtain ⟨_, _, ⟨room, used, rfl, phrase⟩, rfl, rfl⟩ := after
          exact ⟨sign :: used, rfl, .unary reads room phrase⟩

/-- A token that is no prefix operator is left to the primaries. -/
theorem prefixed_of_no_sign {inner : Nat → Parser Expr} {token : Token} {tokens : List Token}
    {expr : Expr} {rest : List Token} (noSign : UnaryOp.ofKind? token.kind = none)
    (succeeds : primary inner (token :: tokens) = .ok expr rest) :
    prefixed inner (token :: tokens) = .ok expr rest := by
  refine bind_eq_ok_iff.mpr ⟨none, token :: tokens, nextMatching_eq_ok_none_iff.mpr ⟨rfl, ?_⟩,
    succeeds⟩
  intro first isFirst
  cases isFirst
  simp [noSign]

theorem prefixed_complete {depth : Nat} {inner : Nat → Parser Expr} (opens : Opens depth inner)
    {used rest : List Token} {expr : Expr} (phrase : Phrase .standard [] depth used expr) :
    prefixed inner (used ++ rest) = .ok expr rest := by
  cases phrase with
  | @number _ token value isNumber denotes =>
      refine prefixed_of_no_sign (by rw [isNumber]; rfl) ?_
      refine bind_eq_ok_iff.mpr ⟨some token, rest, next_eq_ok_some_iff.mpr rfl, ?_⟩
      simp only [isNumber, Value.ofDecimal?_eq_some_iff.mpr denotes]
      exact pure_eq_ok_iff.mpr ⟨rfl, rfl⟩
  | @name _ token isName =>
      refine prefixed_of_no_sign (by rw [isName]; rfl) ?_
      refine bind_eq_ok_iff.mpr ⟨some token, rest, next_eq_ok_some_iff.mpr rfl, ?_⟩
      simp only [isName]
      exact pure_eq_ok_iff.mpr ⟨rfl, rfl⟩
  | @parens _ opening closing used _ isOpening room phrase isClosing =>
      rw [List.cons_append, List.cons_append, List.append_assoc]
      refine prefixed_of_no_sign (by rw [isOpening]; rfl) ?_
      refine bind_eq_ok_iff.mpr ⟨some opening, _, next_eq_ok_some_iff.mpr rfl, ?_⟩
      simp only [isOpening, bind_eq_ok_iff, expect_eq_ok_iff, pure_eq_ok_iff, opens.whole]
      have stops : Stops Tier.all (closing :: rest) :=
        stops_of_no_operator (by rw [isClosing]; rfl)
      exact ⟨expr, _, ⟨room, used, rfl, phrase, stops⟩, closing, rest, ⟨rfl, isClosing⟩, rfl, rfl⟩
  | @least _ sign magnitude isMinus isNumber denotes =>
      refine bind_eq_ok_iff.mpr ⟨some (.negate, sign.line), magnitude :: rest,
        nextMatching_eq_ok_some_iff.mpr ⟨sign, rfl, by rw [isMinus]; rfl⟩, ?_⟩
      refine bind_eq_ok_iff.mpr ⟨some magnitude.line, rest,
        nextMatching_eq_ok_some_iff.mpr ⟨magnitude, rfl, ?_⟩, pure_eq_ok_iff.mpr ⟨rfl, rfl⟩⟩
      exact leastMagnitude_eq_some_iff.mpr ⟨isNumber, denotes, rfl⟩
  | @unary _ sign op used operand reads room phrase =>
      refine bind_eq_ok_iff.mpr ⟨some (op, sign.line), used ++ rest,
        nextMatching_eq_ok_some_iff.mpr ⟨sign, rfl, by rw [reads]; rfl⟩, ?_⟩
      have inside : ∀ line, inner line (used ++ rest) = .ok operand rest := by
        intro line
        exact (opens.operand line _ _ _).mpr ⟨room, used, rfl, phrase⟩
      cases op with
      | negate =>
          refine bind_eq_ok_iff.mpr ⟨none, used ++ rest,
            nextMatching_eq_ok_none_iff.mpr ⟨rfl, phrase.leastMagnitude_eq_none⟩, ?_⟩
          exact bind_eq_ok_iff.mpr ⟨operand, rest, inside _, pure_eq_ok_iff.mpr ⟨rfl, rfl⟩⟩
      | not => exact bind_eq_ok_iff.mpr ⟨operand, rest, inside _, pure_eq_ok_iff.mpr ⟨rfl, rfl⟩⟩

theorem prefixed_reads {depth : Nat} {inner : Nat → Parser Expr} (opens : Opens depth inner) :
    Reads [] depth (prefixed inner) := by
  intro tokens expr rest
  constructor
  · intro succeeds
    obtain ⟨used, rfl, phrase⟩ := prefixed_sound opens succeeds
    exact ⟨used, rfl, phrase, stops_nil rest⟩
  · rintro ⟨used, rfl, phrase, _⟩
    exact prefixed_complete opens phrase

theorem operand_reads (depth : Nat) : Reads [] depth (operand (roomAt depth)) := by
  -- By induction on the levels that are left, for every depth that leaves so many.
  generalize left : roomAt depth = room
  unfold roomAt at left
  induction room generalizing depth with
  | zero =>
      have full : ¬ depth < maxNesting := by omega
      refine prefixed_reads ⟨?_, ?_⟩
      · intro line tokens expr rest
        simp [full, fail_ne_ok]
      · intro line tokens expr rest
        have fails : joined Tier.all (fail .nestingTooDeep line) tokens ≠ .ok expr rest :=
          joined_ne_ok (fun _ _ _ => fail_ne_ok) tokens expr rest
        simp [full, fails]
  | succ room ih =>
      have free : depth < maxNesting := by omega
      have deeper := ih (depth + 1) (by omega)
      refine prefixed_reads ⟨?_, ?_⟩
      · intro line tokens expr rest
        simp [free, deeper tokens expr rest, stops_nil]
      · intro line tokens expr rest
        have reads : Reads Tier.all (depth + 1) (joined Tier.all (operand room)) :=
          joined_reads (by decide) deeper
        simp [free, reads tokens expr rest]

theorem parser_reads (depth : Nat) : Reads Tier.all depth (parser (roomAt depth)) :=
  joined_reads (by decide) (operand_reads depth)

end Expr

end TinyImp
