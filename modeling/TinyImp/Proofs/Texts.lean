import Std.Data.String.ToInt
import TinyImp.Proofs.Rendering

/-! # Taking texts apart

Text that was put together from pieces can be taken apart again where it is known which characters a
piece may hold: at the first character that is none of these, or at the last one of a kind that does
not stand in what follows. Two texts that are equal then have equal pieces.
-/

namespace TinyImp

section Cuts

variable {piece piece' rest rest' : List Char} {separator : Char}

/-- A piece ends at the first character that is no part of it. -/
theorem cut_where_it_stops {p : Char → Bool} (within : ∀ c ∈ piece, p c)
    (within' : ∀ c ∈ piece', p c) (stops : ∀ c ∈ rest.head?, p c = false)
    (stops' : ∀ c ∈ rest'.head?, p c = false) (same : piece ++ rest = piece' ++ rest') :
    piece = piece' ∧ rest = rest' := by
  have run {others : List Char} (stops : ∀ c ∈ others.head?, p c = false) :
      others.takeWhile p = [] := by
    cases others with
    | nil => rfl
    | cons c others => simp [stops c rfl]
  have samePiece := congrArg (List.takeWhile p) same
  rw [List.takeWhile_append_of_pos within, List.takeWhile_append_of_pos within', run stops,
    run stops', List.append_nil, List.append_nil] at samePiece
  subst samePiece
  exact ⟨rfl, List.append_cancel_left same⟩

theorem cut_at_first (free : separator ∉ piece) (free' : separator ∉ piece')
    (same : piece ++ separator :: rest = piece' ++ separator :: rest') :
    piece = piece' ∧ rest = rest' := by
  have within {text : List Char} (free : separator ∉ text) :
      ∀ c ∈ text, decide (c ≠ separator) := by
    intro c isMember
    exact decide_eq_true (ne_of_mem_of_not_mem isMember free)
  have stops (text : List Char) :
      ∀ c ∈ (separator :: text).head?, decide (c ≠ separator) = false := by
    intro c isNext
    cases isNext
    simp
  obtain ⟨samePiece, sameRest⟩ :=
    cut_where_it_stops (within free) (within free') (stops rest) (stops rest') same
  exact ⟨samePiece, List.tail_eq_of_cons_eq sameRest⟩

theorem cut_at_last (free : separator ∉ rest) (free' : separator ∉ rest')
    (same : piece ++ separator :: rest = piece' ++ separator :: rest') :
    piece = piece' ∧ rest = rest' := by
  have backwards := congrArg List.reverse same
  simp only [List.reverse_append, List.reverse_cons, List.append_assoc,
    List.singleton_append] at backwards
  obtain ⟨sameRest, samePiece⟩ := cut_at_first (by simpa using free) (by simpa using free') backwards
  exact ⟨List.reverse_injective samePiece, List.reverse_injective sameRest⟩

end Cuts

theorem toList_unlines_cons (line : String) (lines : List String) :
    (unlines (line :: lines)).toList = line.toList ++ '\n' :: (unlines lines).toList := by
  simp [unlines]

/-- Lines are told apart by the line feeds behind them. -/
theorem unlines_injective {lines lines' : List String} (unbroken : ∀ line ∈ lines, '\n' ∉ line.toList)
    (unbroken' : ∀ line ∈ lines', '\n' ∉ line.toList) (same : unlines lines = unlines lines') :
    lines = lines' := by
  have characters := congrArg String.toList same
  clear same
  induction lines generalizing lines' with
  | nil =>
      cases lines' with
      | nil => rfl
      | cons line' lines' => simp [unlines] at characters
  | cons line lines ih =>
      cases lines' with
      | nil => simp [unlines] at characters
      | cons line' lines' =>
          rw [List.forall_mem_cons] at unbroken unbroken'
          rw [toList_unlines_cons, toList_unlines_cons] at characters
          obtain ⟨sameLine, sameLines⟩ := cut_at_first unbroken.1 unbroken'.1 characters
          rw [String.toList_injective sameLine, ih unbroken.2 unbroken'.2 sameLines]

namespace Value

theorem text_injective {left right : Value} (same : left.text = right.text) : left = right := by
  rw [text, text, Int.toString_eq_repr, Int.toString_eq_repr, Int.repr_inj] at same
  exact Int64.toInt_inj.mp same

/-- A row of digits, perhaps behind a minus sign. -/
theorem text_eq (value : Value) :
    ∃ first others, (value.text.toList = first :: others ∨ value.text.toList = '-' :: first :: others) ∧
      first.isDigit ∧ ∀ c ∈ others, c.isDigit := by
  have row (n : Nat) : ∃ first others, Nat.toDigits 10 n = first :: others ∧ first.isDigit ∧
      ∀ c ∈ others, c.isDigit := by
    obtain ⟨first, others, isRow⟩ := List.exists_cons_of_ne_nil (Nat.toDigits_ne_nil (n := n) (b := 10))
    have areDigits := Decimal.areDigits_toDigits n
    rw [isRow, List.forall_mem_cons] at areDigits
    exact ⟨first, others, isRow, areDigits⟩
  by_cases nonneg : 0 ≤ value.toInt
  · obtain ⟨first, others, isRow, areDigits⟩ := row value.toInt.toNat
    exact ⟨first, others, .inl ((text_of_nonneg nonneg).trans isRow), areDigits⟩
  · obtain ⟨first, others, isRow, areDigits⟩ := row (-value.toInt).toNat
    refine ⟨first, others, .inr ?_, areDigits⟩
    rw [text, Int.toString_eq_repr, Int.repr_eq_if, if_neg nonneg, String.toList_append,
      Nat.toList_repr, isRow]
    rfl

theorem isDigit_or_minus_of_mem_text {value : Value} {c : Char}
    (isMember : c ∈ value.text.toList) : c.isDigit ∨ c = '-' := by
  obtain ⟨first, others, isText, isDigit, areDigits⟩ := value.text_eq
  have digits : ∀ c ∈ first :: others, c.isDigit := List.forall_mem_cons.mpr ⟨isDigit, areDigits⟩
  rcases isText with isText | isText
  · rw [isText] at isMember
    exact .inl (digits c isMember)
  · rw [isText] at isMember
    rcases List.mem_cons.mp isMember with isSign | inRow
    · exact .inr isSign
    · exact .inl (digits c inRow)

theorem notMem_text {value : Value} {c : Char} (noDigit : c.isDigit = false) (noSign : c ≠ '-') :
    c ∉ value.text.toList := by
  intro isMember
  rcases isDigit_or_minus_of_mem_text isMember with isDigit | isSign
  · rw [isDigit] at noDigit
    cases noDigit
  · exact noSign isSign

theorem text_ne_nil (value : Value) : value.text.toList ≠ [] := by
  obtain ⟨first, others, isText | isText, -⟩ := value.text_eq
  · simp [isText]
  · simp [isText]

end Value

end TinyImp
