import TinyImp.Proofs.Scope
import TinyImp.Proofs.Texts

/-! # The text of an expression determines the expression

Numerals and words go on up to a blank or a closing parenthesis, and every operation stands in
parentheses of its own. So a text is taken apart from its front: what an expression is and where it
ends is known before the next one begins. Only a minus sign behind an opening parenthesis may be
either an operator or the sign of a numeral. It is an operator exactly if a closing parenthesis
follows its operand.
-/

namespace TinyImp

/-- A letter or an underscore, and any number of letters, digits and underscores. Reserved words are
    words as well. -/
def IsWord (word : String) : Prop :=
  Token.Matches .identifier word.toList

theorem Token.isWordPart_of_letter {c : Char} (isLetter : Initial.ofChar c = .letter) :
    isWordPart c := by
  have isStart : isWordStart c := by
    unfold Initial.ofChar at isLetter
    grind
  simp only [isWordStart, Bool.or_eq_true, decide_eq_true_eq] at isStart
  rcases isStart with isAlpha | isUnderscore
  · simp [isWordPart, Char.isAlphanum, isAlpha]
  · simp [isWordPart, isUnderscore]

theorem IsWord.first {word : String} (isWord : IsWord word) :
    ∃ first others, word.toList = first :: others ∧ Token.Initial.ofChar first = .letter ∧
      ∀ c ∈ others, Token.isWordPart c := by
  unfold IsWord at isWord
  obtain ⟨first, others, split⟩ := List.exists_cons_of_ne_nil isWord.ne_nil
  rw [split] at isWord
  exact ⟨first, others, split, isWord.initial, isWord.word rfl⟩

theorem IsWord.parts {word : String} (isWord : IsWord word) :
    ∀ c ∈ word.toList, Token.isWordPart c := by
  obtain ⟨first, others, split, isLetter, areParts⟩ := isWord.first
  rw [split, List.forall_mem_cons]
  exact ⟨Token.isWordPart_of_letter isLetter, areParts⟩

theorem IsWord.notMem {word : String} (isWord : IsWord word) {c : Char}
    (noPart : Token.isWordPart c = false) : c ∉ word.toList := by
  intro isMember
  rw [isWord.parts c isMember] at noPart
  cases noPart

theorem IsWord.ne_text {word : String} (isWord : IsWord word) (value : Value) :
    word.toList ≠ value.text.toList := by
  intro same
  obtain ⟨first, others, split, isLetter, -⟩ := isWord.first
  have isMember : first ∈ value.text.toList := by
    rw [← same, split]
    exact List.mem_cons_self
  rcases Value.isDigit_or_minus_of_mem_text isMember with isDigit | isSign
  · rw [Token.Initial.ofChar_digit isDigit] at isLetter
    cases isLetter
  · subst isSign
    cases isLetter

theorem UnaryOp.symbol_eq (op : UnaryOp) :
    ∃ sign, op.symbol.toList = [sign] ∧ Token.Initial.ofChar sign = .mark ∧ sign ≠ '(' := by
  cases op with
  | negate => exact ⟨'-', rfl, rfl, by decide⟩
  | not => exact ⟨'!', rfl, rfl, by decide⟩

theorem UnaryOp.cut_symbol {left right : UnaryOp} {rest rest' : List Char}
    (same : left.symbol.toList ++ rest = right.symbol.toList ++ rest') :
    left = right ∧ rest = rest' := by
  cases left with
  | negate =>
      cases right with
      | negate => exact ⟨rfl, List.tail_eq_of_cons_eq same⟩
      | not => exact absurd (List.head_eq_of_cons_eq same) (by decide)
  | not =>
      cases right with
      | negate => exact absurd (List.head_eq_of_cons_eq same) (by decide)
      | not => exact ⟨rfl, List.tail_eq_of_cons_eq same⟩

theorem BinaryOp.spelling?_kind (op : BinaryOp) : op.kind.spelling? = some op.symbol := by
  cases op <;> rfl

theorem BinaryOp.symbol_injective {left right : BinaryOp} (same : left.symbol = right.symbol) :
    left = right := by
  have isSpelling := left.spelling?_kind
  rw [same] at isSpelling
  have sameKind := Token.Kind.eq_of_spelling?_eq isSpelling right.spelling?_kind
  have sameOperator := congrArg BinaryOp.ofKind? sameKind
  rw [left.ofKind?_kind, right.ofKind?_kind] at sameOperator
  exact Option.some.inj sameOperator

theorem BinaryOp.no_blank (op : BinaryOp) : ' ' ∉ op.symbol.toList := by
  cases op <;> decide

/-- The characters of words and numerals. -/
def isAtomPart (c : Char) : Bool :=
  Token.isWordPart c || c = '-'

theorem isAtomPart_of_isDigit {c : Char} (isDigit : c.isDigit) : isAtomPart c := by
  simp [isAtomPart, Token.isWordPart, Char.isAlphanum, isDigit]

theorem Ended.no_atom {rest : List Char} (ended : Ended rest) :
    ∀ c ∈ rest.head?, isAtomPart c = false :=
  ended.next (by decide) (by decide)

namespace Expr

/-- Its names are words. -/
def Named (expr : Expr) : Prop :=
  ∀ name ∈ expr.uses, IsWord name

theorem Named.word {name : String} {line : Nat} (named : (var name line).Named) : IsWord name :=
  named name (List.mem_singleton_self name)

theorem Named.operand {op : UnaryOp} {operand : Expr} {line : Nat}
    (named : (unary op operand line).Named) : operand.Named :=
  named

theorem Named.left {op : BinaryOp} {left right : Expr} {line : Nat}
    (named : (binary op left right line).Named) : left.Named :=
  fun name isUsed => named name (List.mem_append_left _ isUsed)

theorem Named.right {op : BinaryOp} {left right : Expr} {line : Nat}
    (named : (binary op left right line).Named) : right.Named :=
  fun name isUsed => named name (List.mem_append_right _ isUsed)

/-- A constant or a variable. -/
def IsAtom : Expr → Prop
  | .const _ _ | .var _ _ => True
  | .unary _ _ _ | .binary _ _ _ _ => False

theorem render_atom {expr : Expr} (named : expr.Named) (isAtom : expr.IsAtom) :
    expr.render.toList ≠ [] ∧ ∀ c ∈ expr.render.toList, isAtomPart c := by
  cases expr with
  | const value line =>
      refine ⟨value.text_ne_nil, ?_⟩
      intro c isMember
      rcases Value.isDigit_or_minus_of_mem_text isMember with isDigit | isSign
      · exact isAtomPart_of_isDigit isDigit
      · subst isSign
        rfl
  | var name line =>
      refine ⟨named.word.ne_nil, ?_⟩
      intro c isMember
      simp [isAtomPart, named.word.parts c isMember]
  | unary op operand line | binary op left right line => cases isAtom

theorem render_unary_append (op : UnaryOp) (operand : Expr) (line : Nat) (rest : List Char) :
    (unary op operand line).render.toList ++ rest =
      '(' :: (op.symbol.toList ++ (operand.render.toList ++ ')' :: rest)) := by
  simp [render]

theorem render_binary_append (op : BinaryOp) (left right : Expr) (line : Nat) (rest : List Char) :
    (binary op left right line).render.toList ++ rest =
      '(' :: (left.render.toList ++ ' ' :: (op.symbol.toList ++ ' ' ::
        (right.render.toList ++ ')' :: rest))) := by
  simp [render]

variable {rest rest' : List Char}

/-- What begins with a part of an atom is no operation. -/
theorem isAtom_of_begins {expr : Expr} {c : Char} {others : List Char} (isPart : isAtomPart c)
    (begins : c :: others = expr.render.toList ++ rest) : expr.IsAtom := by
  have noParen : c ≠ '(' := by
    intro isParen
    subst isParen
    cases isPart
  cases expr with
  | const | var => trivial
  | unary op operand line =>
      rw [render_unary_append] at begins
      exact absurd (List.cons.inj begins).1 noParen
  | binary op left right line =>
      rw [render_binary_append] at begins
      exact absurd (List.cons.inj begins).1 noParen

theorem cut_atoms {left right : Expr} (named : left.Named) (named' : right.Named)
    (isAtom : left.IsAtom) (isAtom' : right.IsAtom) (ended : Ended rest) (ended' : Ended rest')
    (same : left.render.toList ++ rest = right.render.toList ++ rest') :
    left.render = right.render ∧ rest = rest' := by
  obtain ⟨sameText, sameRest⟩ := cut_where_it_stops (render_atom named isAtom).2
    (render_atom named' isAtom').2 ended.no_atom ended'.no_atom same
  exact ⟨String.toList_injective sameText, sameRest⟩

theorem eraseLines_of_atoms {left right : Expr} (named : left.Named) (named' : right.Named)
    (isAtom : left.IsAtom) (isAtom' : right.IsAtom) (same : left.render = right.render) :
    left.eraseLines = right.eraseLines := by
  cases left with
  | const value line =>
      cases right with
      | const value' line' =>
          cases Value.text_injective same
          rfl
      | var name line' =>
          exact absurd (congrArg String.toList same.symm) (named'.word.ne_text value)
      | _ => cases isAtom'
  | var name line =>
      cases right with
      | const value line' =>
          exact absurd (congrArg String.toList same) (named.word.ne_text value)
      | var name' line' =>
          cases same
          rfl
      | _ => cases isAtom'
  | _ => cases isAtom

theorem cut_atom {left right : Expr} (named : left.Named) (named' : right.Named)
    (isAtom : left.IsAtom) (ended : Ended rest) (ended' : Ended rest')
    (same : left.render.toList ++ rest = right.render.toList ++ rest') :
    left.eraseLines = right.eraseLines ∧ rest = rest' := by
  obtain ⟨nonempty, areParts⟩ := render_atom named isAtom
  have isAtom' : right.IsAtom := by
    obtain ⟨c, others, isText⟩ := List.exists_cons_of_ne_nil nonempty
    rw [isText] at same areParts
    exact isAtom_of_begins (areParts c List.mem_cons_self) same
  obtain ⟨sameText, sameRest⟩ := cut_atoms named named' isAtom isAtom' ended ended' same
  exact ⟨eraseLines_of_atoms named named' isAtom isAtom' sameText, sameRest⟩

/-- An operator with its operand does not look like a left operand. Where both begin with a minus sign
    the one goes on to a closing parenthesis and the other to a blank. -/
theorem signed_ne_left {op : UnaryOp} {operand left : Expr} (named : operand.Named)
    (named' : left.Named) :
    op.symbol.toList ++ (operand.render.toList ++ ')' :: rest) ≠
      left.render.toList ++ ' ' :: rest' := by
  intro same
  obtain ⟨sign, isSymbol, isMark, noParen⟩ := op.symbol_eq
  rw [isSymbol, List.singleton_append] at same
  cases left with
  | unary op' operand' line =>
      rw [render_unary_append] at same
      exact noParen (List.head_eq_of_cons_eq same)
  | binary op' left' right' line =>
      rw [render_binary_append] at same
      exact noParen (List.head_eq_of_cons_eq same)
  | var name line =>
      obtain ⟨first, others, split, isLetter, -⟩ := named'.word.first
      rw [render, split, List.cons_append] at same
      rw [List.head_eq_of_cons_eq same, isLetter] at isMark
      cases isMark
  | const value line =>
      obtain ⟨digit, digits, isText | isText, isDigit, areDigits⟩ := value.text_eq
      · rw [render, isText, List.cons_append] at same
        rw [List.head_eq_of_cons_eq same, Token.Initial.ofChar_digit isDigit] at isMark
        cases isMark
      · rw [render, isText, List.cons_append] at same
        replace same := List.tail_eq_of_cons_eq same
        have isAtom : operand.IsAtom := isAtom_of_begins (isAtomPart_of_isDigit isDigit) same.symm
        have areParts : ∀ c ∈ digit :: digits, isAtomPart c := by
          rw [List.forall_mem_cons]
          exact ⟨isAtomPart_of_isDigit isDigit,
            fun c isMember => isAtomPart_of_isDigit (areDigits c isMember)⟩
        have closing : Ended (')' :: rest) := ended_cons (.inr rfl)
        have blank : Ended (' ' :: rest') := ended_cons (.inl rfl)
        obtain ⟨-, impossible⟩ := cut_where_it_stops (render_atom named isAtom).2 areParts
          closing.no_atom blank.no_atom same
        cases impossible

/-- The text of an expression determines the expression, and where it ends. -/
theorem cut_render {expr other : Expr} (named : expr.Named) (named' : other.Named)
    (ended : Ended rest) (ended' : Ended rest')
    (same : expr.render.toList ++ rest = other.render.toList ++ rest') :
    expr.eraseLines = other.eraseLines ∧ rest = rest' := by
  induction expr generalizing other rest rest' with
  | const | var => exact cut_atom named named' trivial ended ended' same
  | unary op operand line ih =>
      cases other with
      | const | var =>
          obtain ⟨sameExpr, sameRest⟩ := cut_atom named' named trivial ended' ended same.symm
          exact ⟨sameExpr.symm, sameRest.symm⟩
      | unary op' operand' line' =>
          rw [render_unary_append, render_unary_append] at same
          obtain ⟨sameOp, same⟩ := UnaryOp.cut_symbol (List.tail_eq_of_cons_eq same)
          obtain ⟨sameOperand, sameRest⟩ := ih named.operand named'.operand (ended_cons (.inr rfl))
            (ended_cons (.inr rfl)) same
          simp only [eraseLines, sameOp, sameOperand, List.tail_eq_of_cons_eq sameRest, and_self]
      | binary op' left' right' line' =>
          rw [render_unary_append, render_binary_append] at same
          exact absurd (List.tail_eq_of_cons_eq same) (signed_ne_left named.operand named'.left)
  | binary op left right line ihl ihr =>
      cases other with
      | const | var =>
          obtain ⟨sameExpr, sameRest⟩ := cut_atom named' named trivial ended' ended same.symm
          exact ⟨sameExpr.symm, sameRest.symm⟩
      | unary op' operand' line' =>
          rw [render_unary_append, render_binary_append] at same
          exact absurd (List.tail_eq_of_cons_eq same.symm) (signed_ne_left named'.operand named.left)
      | binary op' left' right' line' =>
          rw [render_binary_append, render_binary_append] at same
          obtain ⟨sameLeft, same⟩ := ihl named.left named'.left (ended_cons (.inl rfl))
            (ended_cons (.inl rfl)) (List.tail_eq_of_cons_eq same)
          obtain ⟨sameSymbol, same⟩ :=
            cut_at_first op.no_blank op'.no_blank (List.tail_eq_of_cons_eq same)
          have sameOp := BinaryOp.symbol_injective (String.toList_injective sameSymbol)
          obtain ⟨sameRight, sameRest⟩ := ihr named.right named'.right (ended_cons (.inr rfl))
            (ended_cons (.inr rfl)) same
          simp only [eraseLines, sameOp, sameLeft, sameRight, List.tail_eq_of_cons_eq sameRest,
            and_self]

theorem render_eraseLines (expr : Expr) : expr.eraseLines.render = expr.render := by
  induction expr with
  | const | var => rfl
  | unary op operand line ih => simp only [eraseLines, render, ih]
  | binary op left right line ihl ihr => simp only [eraseLines, render, ihl, ihr]

theorem eraseLines_of_render {left right : Expr} (named : left.Named) (named' : right.Named)
    (same : left.render = right.render) : left.eraseLines = right.eraseLines := by
  have ended : Ended [] := by
    intro c isNext
    cases isNext
  exact (cut_render named named' ended ended (congrArg (·.toList ++ []) same)).1

end Expr

end TinyImp
