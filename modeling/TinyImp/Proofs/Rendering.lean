import TinyImp.Proofs.Backends
import TinyImp.Proofs.ExprAt
import TinyImp.Proofs.Lines
import TinyImp.Proofs.Parsing
import TinyImp.Proofs.Spelling

/-! # Rendered expressions read back

Reading the text of an expression is split at its words. The text spells them, because no two of its
lexemes can run together; and the words are a phrase of the grammar for the same tree, because every
operation stands in parentheses of its own, so that precedence decides nothing.
-/

namespace TinyImp

/-- The scanner reads the whole of it as one identifier. -/
def IsIdentifier (name : String) : Prop :=
  tokenize name = .ok [{ kind := .identifier, lexeme := name }]

namespace Expr

/-- Its names are identifiers, and its constants are not negative, or the least value. -/
def Spellable : Expr → Prop
  | .const value _ => 0 ≤ value.toInt ∨ value = Value.least
  | .var name _ => IsIdentifier name
  | .unary _ operand _ => operand.Spellable
  | .binary _ left right _ => left.Spellable ∧ right.Spellable

/-- The weight of the heaviest path from the root to a leaf. A binary node counts once and a prefix
    operator twice, like the levels that they open when they are written in parentheses. -/
def weight : Expr → Nat
  | .const _ _ | .var _ _ => 0
  | .unary _ operand _ => 2 + operand.weight
  | .binary _ left right _ => 1 + max left.weight right.weight

theorem height_le_weight (expr : Expr) : expr.height ≤ expr.weight + 1 := by
  induction expr with
  | const | var => exact Nat.le_refl 1
  | unary op operand line ih =>
      simp only [height, weight]
      omega
  | binary op left right line ihl ihr =>
      simp only [height, weight]
      omega

end Expr

theorem isIdentifier_iff {name : String} :
    IsIdentifier name ↔ Token.Longest .identifier name.toList name.toList := by
  constructor
  · intro scanned
    exact (Lexed.of_tokenize scanned).wellSpelled _ List.mem_cons_self
  · intro alone
    have start : Lexed [] [] (name.toList ++ []) := .start
    have longest : Token.Longest .identifier name.toList (name.toList ++ []) := by
      rw [List.append_nil]
      exact alone
    have lexed := start.token longest nofun nofun
    rw [String.ofList_toList] at lexed
    exact tokenize_of_lexed lexed

theorem Decimal.signed?_of_digits {digits : List Char} (areDigits : ∀ c ∈ digits, c.isDigit) :
    Decimal.signed? digits = (Decimal.nat? digits).map fun (n : Nat) => (n : Int) := by
  unfold Decimal.signed?
  split
  · exact absurd (areDigits '+' (by simp)) (by decide)
  · exact absurd (areDigits '-' (by simp)) (by decide)
  · cases Decimal.nat? digits <;> rfl

theorem Decimal.signed?_nonneg {digits : List Char} {n : Int} (areDigits : ∀ c ∈ digits, c.isDigit)
    (isNumeral : Decimal.signed? digits = some n) : 0 ≤ n := by
  rw [Decimal.signed?_of_digits areDigits, Option.map_eq_some_iff] at isNumeral
  obtain ⟨magnitude, _, rfl⟩ := isNumeral
  exact Int.natCast_nonneg magnitude

theorem Value.text_least : Value.least.text = "-" ++ "9223372036854775808" := by
  decide

theorem Value.text_of_nonneg {value : Value} (nonneg : 0 ≤ value.toInt) :
    value.text.toList = Nat.toDigits 10 value.toInt.toNat := by
  rw [Value.text, Int.toString_eq_repr, Int.repr_eq_if, if_pos nonneg, Nat.toList_repr]

theorem Decimal.areDigits_toDigits (n : Nat) : ∀ c ∈ Nat.toDigits 10 n, c.isDigit :=
  fun _ => Nat.isDigit_of_mem_toDigits (by decide) (by decide)

theorem Value.signed?_text {value : Value} (nonneg : 0 ≤ value.toInt) :
    Decimal.signed? value.text.toList = some value.toInt := by
  have areDigits := Decimal.areDigits_toDigits value.toInt.toNat
  rw [text_of_nonneg nonneg, Decimal.signed?_of_digits areDigits, Decimal.nat?,
    if_pos ⟨Nat.toDigits_ne_nil, List.all_eq_true.mpr areDigits⟩, Nat.ofDigitChars_ten_toDigits,
    Option.map_some, Int.toNat_of_nonneg nonneg]

/-- What may stand behind an operand: a blank, a closing parenthesis, or nothing. -/
def Ended (rest : List Char) : Prop :=
  ∀ c ∈ rest.head?, c = ' ' ∨ c = ')'

theorem ended_cons {c : Char} {rest : List Char} (listed : c = ' ' ∨ c = ')') :
    Ended (c :: rest) := by
  rintro _ ⟨⟩
  exact listed

theorem Ended.next {rest : List Char} {p : Char → Prop} (ended : Ended rest) (blank : p ' ')
    (closing : p ')') : ∀ c ∈ rest.head?, p c := by
  intro c isNext
  rcases ended c isNext with rfl | rfl
  · exact blank
  · exact closing

theorem Spells.name {name : String} (isIdentifier : IsIdentifier name) :
    Spells Ended name.toList [(.identifier, name)] := by
  apply Spells.word (isIdentifier_iff.mp isIdentifier) (by decide)
  intro first others rest initial ended
  exact Token.separate_of_letter initial (ended.next (by decide) (by decide))

theorem Spells.number {numeral : String} (nonempty : numeral.toList ≠ [])
    (areDigits : ∀ c ∈ numeral.toList, c.isDigit) :
    Spells Ended numeral.toList [(.number, numeral)] := by
  apply Spells.word (Token.longest_digits nonempty areDigits) (by decide)
  intro first others rest initial ended
  exact Token.separate_of_digit initial (ended.next (by decide) (by decide))

/-- The kind of token that writes a prefix operator. -/
def UnaryOp.kind : UnaryOp → Token.Kind
  | .negate => .minus
  | .not => .bang

theorem UnaryOp.ofKind?_kind (op : UnaryOp) : UnaryOp.ofKind? op.kind = some op := by
  cases op <;> rfl

theorem UnaryOp.symbol_spells (op : UnaryOp) :
    Spells Token.Unglued op.symbol.toList [(op.kind, op.symbol)] := by
  cases op <;> exact Spells.symbol (by decide) rfl

/-- The kind of token that writes a binary operator. -/
def BinaryOp.kind : BinaryOp → Token.Kind
  | .mul => .star
  | .div => .slash
  | .add => .plus
  | .sub => .minus
  | .less => .less
  | .greater => .greater
  | .lessEqual => .lessEqual
  | .greaterEqual => .greaterEqual
  | .equal => .equalEqual
  | .notEqual => .bangEqual
  | .and => .andAnd
  | .or => .pipePipe

theorem BinaryOp.ofKind?_kind (op : BinaryOp) : BinaryOp.ofKind? op.kind = some op := by
  cases op <;> rfl

theorem BinaryOp.symbol_spells (op : BinaryOp) :
    Spells Token.Unglued op.symbol.toList [(op.kind, op.symbol)] := by
  cases op <;> exact Spells.symbol (by decide) rfl

/-- The kinds and spellings of the tokens that write a value. The sign of the least value is a token
    of its own. -/
def Value.words (value : Value) : List (Token.Kind × String) :=
  if value = Value.least then [(.minus, "-"), (.number, "9223372036854775808")]
  else [(.number, value.text)]

theorem Value.text_spells {value : Value} (spellable : 0 ≤ value.toInt ∨ value = Value.least) :
    Spells Ended value.text.toList value.words := by
  unfold Value.words
  split
  next isLeast =>
    have sign : Spells Token.Unglued "-".toList [(.minus, "-")] := Spells.symbol (by decide) rfl
    have magnitude : Spells Ended "9223372036854775808".toList _ :=
      Spells.number (by decide) (List.all_eq_true.mp (by decide))
    rw [isLeast, Value.text_least, String.toList_append]
    exact sign.append magnitude fun rest _ => Token.unglued_cons (by decide)
  next different =>
    have isText := Value.text_of_nonneg (spellable.resolve_right different)
    apply Spells.number
    · rw [isText]
      exact Nat.toDigits_ne_nil
    · rw [isText]
      exact Decimal.areDigits_toDigits _

theorem Value.phrase_of_words {limits : Limits} {value : Value}
    (spellable : 0 ≤ value.toInt ∨ value = Value.least) (depth : Nat) {tokens : List Token}
    (written : tokens.map Token.content = value.words) :
    ∃ line, Expr.Phrase limits [] depth tokens (.const value line) := by
  unfold Value.words at written
  split at written
  next isLeast =>
    subst isLeast
    obtain ⟨sign, _, rfl, isSign, written⟩ := List.map_eq_cons_iff.mp written
    obtain ⟨magnitude, rfl, isMagnitude⟩ := List.map_eq_singleton_iff.mp written
    obtain ⟨isMinus, _⟩ := Prod.mk.inj isSign
    obtain ⟨isNumber, isText⟩ := Prod.mk.inj isMagnitude
    refine ⟨_, .least isMinus isNumber ?_⟩
    rw [isText]
    decide
  next different =>
    obtain ⟨token, rfl, isNumeral⟩ := List.map_eq_singleton_iff.mp written
    obtain ⟨isNumber, isText⟩ := Prod.mk.inj isNumeral
    refine ⟨_, .number isNumber ?_⟩
    rw [isText]
    exact Value.signed?_text (spellable.resolve_right different)

namespace Expr

/-- Words between parentheses. -/
def inParens (words : List (Token.Kind × String)) : List (Token.Kind × String) :=
  (.leftParen, "(") :: (words ++ [(.rightParen, ")")])

/-- The kinds and spellings of the tokens that write an expression. -/
def words : Expr → List (Token.Kind × String)
  | .const value _ => value.words
  | .var name _ => [(.identifier, name)]
  | .unary op operand _ => inParens ((op.kind, op.symbol) :: operand.words)
  | .binary op left right _ => inParens (left.words ++ (op.kind, op.symbol) :: right.words)

theorem inParens_spells {text : List Char} {words : List (Token.Kind × String)}
    (inner : Spells Ended text words) (begins : ∀ rest, Token.Unglued (text ++ rest)) :
    Spells Ended ("(".toList ++ (text ++ ")".toList)) (inParens words) := by
  have opening : Spells Token.Unglued "(".toList [(.leftParen, "(")] :=
    Spells.symbol (by decide) rfl
  have closing : Spells Ended ")".toList [(.rightParen, ")")] :=
    (Spells.symbol (by decide) rfl).imp fun _ ended => ended.next (by decide) (by decide)
  have closed := inner.append closing fun rest _ => ended_cons (by decide)
  refine opening.append closed fun rest _ => ?_
  rw [List.append_assoc]
  exact begins _

/-- No symbol runs into an expression behind it. -/
theorem render_unglued {expr : Expr} (spellable : expr.Spellable) (rest : List Char) :
    Token.Unglued (expr.render.toList ++ rest) := by
  cases expr with
  | const value line =>
      by_cases nonneg : 0 ≤ value.toInt
      · rw [render, Value.text_of_nonneg nonneg]
        have isNumber := Token.Matches.number Nat.toDigits_ne_nil
          (Decimal.areDigits_toDigits value.toInt.toNat)
        exact isNumber.unglued (by decide) rest
      · cases spellable.resolve_left nonneg
        rw [render, Value.text_least, String.toList_append]
        exact Token.unglued_cons (by decide)
  | var name line => exact (isIdentifier_iff.mp spellable).matched.unglued (by decide) rest
  | unary op operand line =>
      simp only [render, String.toList_append, List.append_assoc]
      exact Token.unglued_cons (by decide)
  | binary op left right line =>
      simp only [render, String.toList_append, List.append_assoc]
      exact Token.unglued_cons (by decide)

theorem render_spells {expr : Expr} (spellable : expr.Spellable) :
    Spells Ended expr.render.toList expr.words := by
  induction expr with
  | const value line => exact Value.text_spells spellable
  | var name line => exact Spells.name spellable
  | unary op operand line ih =>
      have begins : ∀ rest, Token.Unglued (operand.render.toList ++ rest) :=
        render_unglued spellable
      have signed := op.symbol_spells.append (ih spellable) fun rest _ => begins rest
      have whole := inParens_spells signed fun rest => by
        cases op <;> exact Token.unglued_cons (by decide)
      simp only [render, String.toList_append, List.append_assoc] at whole ⊢
      exact whole
  | binary op left right line ihl ihr =>
      have space : Spells (fun _ => True) " ".toList [] := Spells.blank (by decide)
      have further := space.append (ihr spellable.2) fun _ _ => trivial
      have signed := op.symbol_spells.append further fun rest _ => Token.unglued_cons (by decide)
      have both := (ihl spellable.1).append (space.append signed fun _ _ => trivial)
        fun rest _ => ended_cons (by decide)
      have whole := inParens_spells both fun rest => by
        rw [List.append_assoc]
        exact render_unglued spellable.1 _
      simp only [render, String.toList_append, List.append_assoc] at whole ⊢
      exact whole

namespace Phrase

variable {limits : Limits}

theorem loosen {depth : Nat} {used : List Token} {expr : Expr}
    (phrase : Phrase limits [] depth used expr) (tiers : List Tier) :
    Phrase limits tiers depth used expr := by
  induction tiers with
  | nil => exact phrase
  | cons tier tiers ih => exact .tighter ih

/-- Where both sides are operands, an operator of any tier may stand between them. -/
theorem join {depth : Nat} {usedLeft usedRight : List Token} {left right : Expr} {sign : Token}
    {op : BinaryOp} {tiers : List Tier} (phraseLeft : Phrase limits [] depth usedLeft left)
    (isSign : BinaryOp.ofKind? sign.kind = some op) (isTier : op.tier ∈ tiers)
    (phraseRight : Phrase limits [] depth usedRight right)
    (low : (Expr.binary op left right sign.line).height ≤ limits.height) :
    Phrase limits tiers depth (usedLeft ++ sign :: usedRight)
      (.binary op left right sign.line) := by
  induction tiers with
  | nil => cases isTier
  | cons tier tiers ih =>
      rcases List.mem_cons.mp isTier with here | tighter
      · exact .binary (phraseLeft.loosen _) isSign here (phraseRight.loosen _) low
      · exact .tighter (ih tighter)

theorem of_inParens {words : List (Token.Kind × String)} {tokens : List Token}
    (written : tokens.map Token.content = inParens words) :
    ∃ used, used.map Token.content = words ∧ ∀ depth expr, depth < limits.nesting →
      Phrase limits Tier.all (depth + 1) used expr → Phrase limits [] depth tokens expr := by
  obtain ⟨opening, _, rfl, isOpening, written⟩ := List.map_eq_cons_iff.mp written
  obtain ⟨used, _, rfl, inner, ending⟩ := List.map_eq_append_iff.mp written
  obtain ⟨closing, rfl, isClosing⟩ := List.map_eq_singleton_iff.mp ending
  refine ⟨used, inner, fun depth expr below phrase => ?_⟩
  exact .parens (Prod.mk.inj isOpening).1 below phrase (Prod.mk.inj isClosing).1

end Phrase

theorem phrase_of_words {expr : Expr} (spellable : expr.Spellable) (depth : Nat)
    (shallow : depth + expr.weight ≤ maxNesting) {tokens : List Token}
    (written : tokens.map Token.content = expr.words) :
    ∃ found, Phrase .standard [] depth tokens found ∧ found.Parallel anyLines expr := by
  induction expr generalizing depth tokens with
  | const value line =>
      obtain ⟨_, phrase⟩ := Value.phrase_of_words spellable depth written
      exact ⟨_, phrase, .const trivial⟩
  | var name line =>
      obtain ⟨token, rfl, isName⟩ := List.map_eq_singleton_iff.mp written
      obtain ⟨isIdentifier, rfl⟩ := Prod.mk.inj isName
      exact ⟨_, .name isIdentifier, .var trivial⟩
  | unary op operand line ih =>
      rw [weight] at shallow
      obtain ⟨_, inner, enclose⟩ := Phrase.of_inParens written
      obtain ⟨sign, used, rfl, isSign, inner⟩ := List.map_eq_cons_iff.mp inner
      have isOperator : UnaryOp.ofKind? sign.kind = some op := by
        rw [(Prod.mk.inj isSign).1, op.ofKind?_kind]
      -- The parentheses open one level and the operator another.
      have first : depth < maxNesting := by omega
      have second : depth + 1 < maxNesting := by omega
      obtain ⟨found, phrase, parallel⟩ := ih spellable (depth + 2) (by omega) inner
      have signed : Phrase .standard [] (depth + 1) (sign :: used) (.unary op found sign.line) :=
        .unary isOperator second phrase
      exact ⟨_, enclose depth _ first (signed.loosen _), .unary parallel trivial⟩
  | binary op left right line ihl ihr =>
      have bound := height_le_weight (.binary op left right line)
      rw [weight] at shallow bound
      obtain ⟨_, inner, enclose⟩ := Phrase.of_inParens written
      obtain ⟨usedLeft, _, rfl, writtenLeft, inner⟩ := List.map_eq_append_iff.mp inner
      obtain ⟨sign, usedRight, rfl, isSign, writtenRight⟩ := List.map_eq_cons_iff.mp inner
      have isOperator : BinaryOp.ofKind? sign.kind = some op := by
        rw [(Prod.mk.inj isSign).1, op.ofKind?_kind]
      obtain ⟨foundLeft, phraseLeft, parallelLeft⟩ :=
        ihl spellable.1 (depth + 1) (by omega) writtenLeft
      obtain ⟨foundRight, phraseRight, parallelRight⟩ :=
        ihr spellable.2 (depth + 1) (by omega) writtenRight
      have parallel : Parallel anyLines (.binary op foundLeft foundRight sign.line)
          (.binary op left right line) := .binary parallelLeft parallelRight trivial
      have low : (Expr.binary op foundLeft foundRight sign.line).height ≤ maxHeight := by
        have room : maxNesting + 1 ≤ maxHeight := by decide
        rw [parallel.height]
        omega
      have joined := phraseLeft.join isOperator op.tier.mem_all phraseRight low
      have below : depth < maxNesting := by omega
      exact ⟨_, enclose depth _ below joined, parallel⟩

theorem ofTokensAt_of_phrase {tokens : List Token} {expr : Expr}
    (phrase : Phrase .standard Tier.all 0 tokens expr) :
    ofTokensAt tokens 0 = .ok (expr, tokens.length) :=
  ofTokensAt_eq_ok_iff.mpr ⟨[], tokens, [], by simp, rfl, by simp, phrase, by simp⟩

end Expr

section Spellable

variable {limits : Limits}

theorem Expr.Phrase.spellable {tiers : List Tier} {depth : Nat} {used : List Token} {expr : Expr}
    (phrase : Expr.Phrase limits tiers depth used expr)
    (spelled : ∀ token ∈ used, token.WellSpelled) : expr.Spellable := by
  induction phrase with
  | @number _ token value isNumber isNumeral =>
      have matched := (spelled token List.mem_cons_self).matched
      rw [isNumber] at matched
      rcases matched.numeral rfl with ⟨_, areDigits⟩ | ⟨isDecimal, _⟩
      · exact .inl (Decimal.signed?_nonneg areDigits isNumeral)
      · cases isDecimal
  | @name _ token isName =>
      have alone := spelled token List.mem_cons_self
      rw [Token.WellSpelled, isName] at alone
      exact isIdentifier_iff.mpr alone
  | parens _ _ _ _ ih =>
      simp only [List.forall_mem_append, List.forall_mem_cons] at spelled
      exact ih spelled.1.2
  | least => exact .inr rfl
  | unary _ _ _ ih =>
      rw [List.forall_mem_cons] at spelled
      exact ih spelled.2
  | tighter _ ih => exact ih spelled
  | binary _ _ _ _ _ ihl ihr =>
      simp only [List.forall_mem_append, List.forall_mem_cons] at spelled
      exact ⟨ihl spelled.1, ihr spelled.2.2⟩

theorem Expr.Enclosed.spellable {depth : Nat} {used : List Token} {expr : Expr}
    (enclosed : Expr.Enclosed limits depth used expr)
    (spelled : ∀ token ∈ used, token.WellSpelled) : expr.Spellable := by
  cases enclosed with
  | parens _ phrase _ =>
      simp only [List.forall_mem_append, List.forall_mem_cons] at spelled
      exact phrase.spellable spelled.1.2

theorem Block.Phrase.row {depth : Nat} {used : List Token} {block : Block}
    (phrase : Block.Phrase limits depth used block) (spelled : ∀ token ∈ used, token.WellSpelled) :
    ∃ inner, Block.Row limits (depth + 1) inner block ∧ ∀ token ∈ inner, token.WellSpelled := by
  cases phrase with
  | braces _ _ row _ =>
      simp only [List.forall_mem_append, List.forall_mem_cons] at spelled
      exact ⟨_, row, spelled.1.2⟩

mutual

/-- The expressions of a statement, as they stand in it. -/
def Statement.exprs : Statement → List Expr
  | .declare _ _ => []
  | .assign _ value _ | .print value _ => [value]
  | .loop condition body _ => condition :: Block.exprs body
  | .branch condition whenTrue whenFalse _ =>
      condition :: (Block.exprs whenTrue ++ Block.exprs whenFalse)

/-- The expressions of a block, one statement after the other. -/
def Block.exprs : List Statement → List Expr
  | [] => []
  | statement :: rest => statement.exprs ++ Block.exprs rest

end

mutual

theorem Statement.Phrase.spellable {depth : Nat} {used : List Token} {statement : Statement}
    (phrase : Statement.Phrase limits depth used statement)
    (spelled : ∀ token ∈ used, token.WellSpelled) :
    ∀ expr ∈ statement.exprs, expr.Spellable := by
  cases phrase with
  | declare => simp [Statement.exprs]
  | assign _ _ value _ =>
      simp only [List.forall_mem_append, List.forall_mem_cons] at spelled
      exact List.forall_mem_singleton.mpr (value.spellable spelled.1.2.2)
  | print _ value _ =>
      simp only [List.forall_mem_append, List.forall_mem_cons] at spelled
      exact List.forall_mem_singleton.mpr (value.spellable spelled.1.2)
  | loop _ condition body =>
      simp only [List.forall_mem_append, List.forall_mem_cons] at spelled
      obtain ⟨⟨_, inCondition⟩, inBody⟩ := spelled
      obtain ⟨inner, row, inRow⟩ := body.row inBody
      exact List.forall_mem_cons.mpr ⟨condition.spellable inCondition, row.spellable inRow⟩
  | branch _ condition whenTrue =>
      simp only [List.forall_mem_append, List.forall_mem_cons] at spelled
      obtain ⟨⟨_, inCondition⟩, inTrue⟩ := spelled
      obtain ⟨inner, row, inRow⟩ := whenTrue.row inTrue
      simp only [Statement.exprs, Block.exprs, List.append_nil]
      exact List.forall_mem_cons.mpr ⟨condition.spellable inCondition, row.spellable inRow⟩
  | branchElse _ condition whenTrue _ whenFalse =>
      simp only [List.forall_mem_append, List.forall_mem_cons] at spelled
      obtain ⟨⟨⟨_, inCondition⟩, inTrue⟩, _, inFalse⟩ := spelled
      obtain ⟨innerTrue, rowTrue, inRowTrue⟩ := whenTrue.row inTrue
      obtain ⟨innerFalse, rowFalse, inRowFalse⟩ := whenFalse.row inFalse
      have blocks := List.forall_mem_append.mpr
        ⟨rowTrue.spellable inRowTrue, rowFalse.spellable inRowFalse⟩
      exact List.forall_mem_cons.mpr ⟨condition.spellable inCondition, blocks⟩
termination_by sizeOf statement

theorem Block.Row.spellable {depth : Nat} {used : List Token} {block : Block}
    (row : Block.Row limits depth used block) (spelled : ∀ token ∈ used, token.WellSpelled) :
    ∀ expr ∈ Block.exprs block, expr.Spellable := by
  cases row with
  | nil => simp [Block.exprs]
  | cons phrase row =>
      rw [List.forall_mem_append] at spelled
      exact List.forall_mem_append.mpr ⟨phrase.spellable spelled.1, row.spellable spelled.2⟩
termination_by sizeOf block

end

end Spellable

/-- The text of an expression is scanned and parsed to the same expression, up to its lines, with no
    token left. This holds if the numerals and names can be read at all, and no path from the root
    to a leaf opens too many levels. Every expression of a parsed source meets the first of these
    conditions. -/
theorem rendered_expressions_read_back :
    (∀ expr : Expr, expr.Spellable → expr.weight ≤ maxNesting →
      ∃ tokens found, tokenize expr.render = .ok tokens ∧
        Expr.ofTokensAt tokens 0 = .ok (found, tokens.length) ∧
        found.eraseLines = expr.eraseLines) ∧
    ∀ (source : String) (program : Program), parse source = .ok program →
      ∀ expr ∈ Block.exprs program, expr.Spellable := by
  constructor
  · intro expr spellable light
    have ended : Ended [] := by
      intro c isNext
      cases isNext
    obtain ⟨tokens, scanned, written⟩ := (Expr.render_spells spellable).tokenize ended
    obtain ⟨found, phrase, parallel⟩ := Expr.phrase_of_words spellable 0 (by omega) written
    exact ⟨tokens, found, scanned, Expr.ofTokensAt_of_phrase (phrase.loosen _),
      parallel.eraseLines⟩
  · intro source program parsed
    rw [parse_eq] at parsed
    simp only [Except.bind_eq_ok_iff, Except.mapError_eq_ok_iff] at parsed
    obtain ⟨tokens, scanned, parsed⟩ := parsed
    have row : Block.Row .standard 0 tokens program := Program.ofTokens_eq_ok_iff.mp parsed
    exact row.spellable (Lexed.of_tokenize scanned).wellSpelled

/-- Of the two signs in `(--9223372036854775808)` the second belongs to the numeral, and an
    exclamation mark does not run into what stands behind it. -/
theorem signed_least_reads_back :
    let expr : Expr := .binary .sub (.unary .negate (.const Value.least 0) 0)
      (.unary .not (.unary .negate (.var "x" 0) 0) 0) 0
    let difference : Expr := .binary .sub (.var "x" 1) (.const Value.least 1) 1
    expr.render = "((--9223372036854775808) - (!(-x)))" ∧ expr.Spellable ∧
      expr.weight ≤ maxNesting ∧
      (∃ tokens found, tokenize expr.render = .ok tokens ∧
        Expr.ofTokensAt tokens 0 = .ok (found, tokens.length) ∧
        found.eraseLines = expr.eraseLines) ∧
      parse "print(x - -9223372036854775808);" = .ok [.print difference 1] ∧
      difference.Spellable := by
  obtain ⟨tokens, scanned, read⟩ : ∃ tokens,
      tokenize "print(x - -9223372036854775808);" = .ok tokens ∧
      Program.ofTokens tokens =
        .ok [.print (.binary .sub (.var "x" 1) (.const Value.least 1) 1) 1] :=
    ⟨[⟨⟨1, 1⟩, .printWord, "print"⟩, ⟨⟨1, 6⟩, .leftParen, "("⟩, ⟨⟨1, 7⟩, .identifier, "x"⟩,
      ⟨⟨1, 9⟩, .minus, "-"⟩, ⟨⟨1, 11⟩, .minus, "-"⟩, ⟨⟨1, 12⟩, .number, "9223372036854775808"⟩,
      ⟨⟨1, 31⟩, .rightParen, ")"⟩, ⟨⟨1, 32⟩, .semicolon, ";"⟩], rfl, rfl⟩
  intro expr difference
  have isIdentifier : IsIdentifier "x" := rfl
  have spellable : expr.Spellable := ⟨.inr rfl, isIdentifier⟩
  have light : expr.weight ≤ maxNesting := by decide
  have parsed : parse "print(x - -9223372036854775808);" = .ok [.print difference 1] := by
    rw [parse_eq, scanned]
    exact congrArg (Except.mapError Error.syntactic) read
  exact ⟨by decide, spellable, light, rendered_expressions_read_back.1 expr spellable light, parsed,
    rendered_expressions_read_back.2 _ _ parsed difference List.mem_cons_self⟩

end TinyImp
