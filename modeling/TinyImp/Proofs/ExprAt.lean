import TinyImp.Proofs.ExprParsing

/-! # Expressions at an index

All tiers stop at the same token, the first one behind the expression that is no binary operator. So
an expression is found at an index exactly if the tokens from there up to another index derive it
and no binary operator stands at that other index. Nothing else in the list has a say.
-/

namespace TinyImp

theorem endLine_append {rest : List Token} (nonempty : rest ≠ []) (before : List Token) :
    endLine (before ++ rest) = endLine rest := by
  cases isLast : rest.getLast? with
  | none => exact absurd (List.getLast?_eq_none_iff.mp isLast) nonempty
  | some last => simp [endLine, isLast]

/-- Of the whole list only the last line counts for an error. -/
theorem SyntaxError.settle_congr {tokens others : List Token} (same : endLine tokens = endLine others)
    (error : SyntaxError) : error.settle tokens = error.settle others := by
  unfold SyntaxError.settle
  rw [same]

namespace Expr

theorem Phrase.ne_nil {limits : Limits} {tiers : List Tier} {depth : Nat} {used : List Token}
    {expr : Expr} (phrase : Phrase limits tiers depth used expr) : used ≠ [] := by
  induction phrase with
  | number | name | parens | least | unary => simp
  | tighter _ ih => exact ih
  | binary => simp

/-- Every binary operator belongs to some tier. -/
theorem stops_all_iff {rest : List Token} :
    Stops Tier.all rest ↔ ∀ token ∈ rest.head?, BinaryOp.ofKind? token.kind = none := by
  constructor
  · intro stops token isNext
    rw [Option.eq_none_iff_forall_ne_some]
    intro op reads
    exact stops token isNext op reads op.tier.mem_all
  · intro noOperator token isNext op reads
    rw [noOperator token isNext] at reads
    cases reads

theorem ofTokensAt_eq_ok_iff {tokens : List Token} {start next : Nat} {expr : Expr} :
    ofTokensAt tokens start = .ok (expr, next) ↔
      ∃ before used after, tokens = before ++ (used ++ after) ∧ before.length = start ∧
        next = start + used.length ∧ Phrase .standard Tier.all 0 used expr ∧
        ∀ token ∈ after.head?, BinaryOp.ofKind? token.kind = none := by
  constructor
  · intro found
    unfold ofTokensAt at found
    split at found
    next parsed after reads =>
      cases found
      obtain ⟨used, split, phrase, stops⟩ := (parser_reads 0 _ _ _).mp reads
      have lengths := congrArg List.length split
      have nonempty := List.length_pos_iff.mpr phrase.ne_nil
      rw [List.length_drop, List.length_append] at lengths
      have inside : start ≤ tokens.length := by omega
      refine ⟨tokens.take start, used, after, ?_, ?_, ?_, phrase, stops_all_iff.mp stops⟩
      · rw [← split, List.take_append_drop]
      · exact List.length_take_of_le inside
      · omega
    next => cases found
  · intro ⟨before, used, after, split, atStart, atNext, phrase, noOperator⟩
    subst split atStart atNext
    have reads := (parser_reads 0 (used ++ after) expr after).mpr
      ⟨used, rfl, phrase, stops_all_iff.mpr noOperator⟩
    unfold ofTokensAt
    rw [List.drop_left, reads]
    simp only [List.length_append, ← Nat.add_assoc, Nat.add_sub_cancel]

/-- The tokens of an expression, and the one behind them, by their indices. -/
theorem ofTokensAt_eq_ok_iff_extract {tokens : List Token} {start next : Nat} {expr : Expr} :
    ofTokensAt tokens start = .ok (expr, next) ↔
      start < next ∧ next ≤ tokens.length ∧
        Phrase .standard Tier.all 0 (tokens.extract start next) expr ∧
        ∀ token ∈ tokens[next]?, BinaryOp.ofKind? token.kind = none := by
  rw [ofTokensAt_eq_ok_iff]
  constructor
  · intro ⟨before, used, after, split, atStart, atNext, phrase, noOperator⟩
    subst split atStart atNext
    have nonempty := List.length_pos_iff.mpr phrase.ne_nil
    refine ⟨by omega, by simp, by simpa using phrase, ?_⟩
    simpa [List.head?_eq_getElem?, List.getElem?_append_right] using noOperator
  · intro ⟨ahead, inside, phrase, noOperator⟩
    refine ⟨tokens.take start, tokens.extract start next, tokens.drop next, ?_, ?_, ?_, phrase, ?_⟩
    · have behind : tokens.drop next = (tokens.drop start).drop (next - start) := by
        rw [List.drop_drop]
        congr 1
        omega
      rw [behind, List.take_append_drop, List.take_append_drop]
    · rw [List.length_take]
      omega
    · rw [List.length_take, List.length_drop]
      omega
    · simpa [List.head?_drop] using noOperator

end Expr

/-- An expression is found at an index exactly if the tokens up to another index derive it outside
    all levels and no binary operator stands at that other index. So it is found whatever stands
    before it, and whatever follows it that does not begin with a binary operator. What stands before
    has no influence on an error either, unless the list ends at the index. -/
theorem expression_at_an_index_is_exact :
    (∀ (tokens : List Token) (start next : Nat) (expr : Expr),
      Expr.ofTokensAt tokens start = .ok (expr, next) ↔
        start < next ∧ next ≤ tokens.length ∧
          Expr.Phrase .standard Tier.all 0 (tokens.extract start next) expr ∧
          (next = tokens.length ∨
            ∃ token, tokens[next]? = some token ∧ BinaryOp.ofKind? token.kind = none)) ∧
    (∀ (tokens : List Token) (start next : Nat) (expr : Expr),
      Expr.ofTokensAt tokens start = .ok (expr, next) →
      ∀ before after : List Token, before.length = start →
        (∀ token ∈ after.head?, BinaryOp.ofKind? token.kind = none) →
        Expr.ofTokensAt (before ++ tokens.extract start next ++ after) start = .ok (expr, next)) ∧
    (∀ before other rest : List Token, before.length = other.length → rest ≠ [] →
      Expr.ofTokensAt (before ++ rest) before.length =
        Expr.ofTokensAt (other ++ rest) other.length) := by
  refine ⟨?found, ?elsewhere, ?refused⟩
  case found =>
    intro tokens start next expr
    rw [Expr.ofTokensAt_eq_ok_iff_extract]
    have atNext : next ≤ tokens.length →
        ((∀ token ∈ tokens[next]?, BinaryOp.ofKind? token.kind = none) ↔
          next = tokens.length ∨
            ∃ token, tokens[next]? = some token ∧ BinaryOp.ofKind? token.kind = none) := by
      intro inside
      rcases Nat.lt_or_eq_of_le inside with short | rfl
      · simp [short, Nat.ne_of_lt short]
      · simp
    constructor
    · intro ⟨ahead, inside, phrase, noOperator⟩
      exact ⟨ahead, inside, phrase, (atNext inside).mp noOperator⟩
    · intro ⟨ahead, inside, phrase, noOperator⟩
      exact ⟨ahead, inside, phrase, (atNext inside).mpr noOperator⟩
  case elsewhere =>
    intro tokens start next expr found before after atStart noOperator
    obtain ⟨previous, used, rest, rfl, rfl, rfl, phrase, _⟩ := Expr.ofTokensAt_eq_ok_iff.mp found
    have isUsed : (previous ++ (used ++ rest)).extract previous.length
        (previous.length + used.length) = used := by simp
    rw [isUsed, List.append_assoc]
    exact Expr.ofTokensAt_eq_ok_iff.mpr
      ⟨before, used, after, rfl, atStart, rfl, phrase, noOperator⟩
  case refused =>
    intro before other rest alike nonempty
    have lengths : (before ++ rest).length = (other ++ rest).length := by
      rw [List.length_append, List.length_append, alike]
    have lines : endLine (before ++ rest) = endLine (other ++ rest) := by
      rw [endLine_append nonempty, endLine_append nonempty]
    unfold Expr.ofTokensAt
    rw [List.drop_left, List.drop_left, lengths]
    split
    next => rfl
    next error _ _ => rw [SyntaxError.settle_congr lines error]

/-- The sum in `x = 1 + 2 * 3;` is found at the index 2, and is also found between other tokens. -/
theorem sum_is_found_between_other_tokens :
    let sum : List Token :=
      [⟨⟨1, 5⟩, .number, "1"⟩, ⟨⟨1, 7⟩, .plus, "+"⟩, ⟨⟨1, 9⟩, .number, "2"⟩,
        ⟨⟨1, 11⟩, .star, "*"⟩, ⟨⟨1, 13⟩, .number, "3"⟩]
    let target : List Token := [⟨⟨1, 1⟩, .identifier, "x"⟩, ⟨⟨1, 3⟩, .equals, "="⟩]
    let semicolon : Token := ⟨⟨1, 14⟩, .semicolon, ";"⟩
    let signs : List Token := [⟨⟨1, 1⟩, .minus, "-"⟩, ⟨⟨1, 3⟩, .leftParen, "("⟩]
    let closing : Token := ⟨⟨2, 1⟩, .rightParen, ")"⟩
    let tree : Expr :=
      .binary .add (.const 1 1) (.binary .mul (.const 2 1) (.const 3 1) 1) 1
    Expr.ofTokensAt (target ++ (sum ++ [semicolon])) 2 = .ok (tree, 7) ∧
    Expr.Phrase .standard Tier.all 0 sum tree ∧
    Expr.ofTokensAt (signs ++ sum ++ [closing]) 2 = .ok (tree, 7) ∧
    Expr.ofTokensAt (target ++ [semicolon]) 2 = Expr.ofTokensAt (signs ++ [semicolon]) 2 := by
  intro sum target semicolon signs closing tree
  have found : Expr.ofTokensAt (target ++ (sum ++ [semicolon])) 2 = .ok (tree, 7) := rfl
  have derived := ((expression_at_an_index_is_exact.1 _ _ _ _).mp found).2.2.1
  have noOperator : ∀ token ∈ [closing].head?, BinaryOp.ofKind? token.kind = none := by
    intro token isNext
    cases isNext
    rfl
  have elsewhere := expression_at_an_index_is_exact.2.1 _ _ _ _ found signs [closing] rfl noOperator
  have refused := expression_at_an_index_is_exact.2.2 target signs [semicolon] rfl (by simp)
  exact ⟨found, derived, elsewhere, refused⟩

end TinyImp
