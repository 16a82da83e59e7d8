import TinyImp.Proofs.Scanning

/-! # Texts that spell tokens

A lexeme that stands alone is also taken where something follows it, unless some lexeme begins with
it and the next character. So texts can be put together from lexemes and blanks, and what they spell
is known without running the scanner: only the characters at the seams matter.
-/

namespace TinyImp

namespace Token

/-- No lexeme begins with this one and the character that follows it. -/
def Separate (lexeme rest : List Char) : Prop :=
  ∀ c ∈ rest.head?, ∀ kind longer, Matches kind longer → ¬ lexeme ++ [c] <+: longer

theorem Longest.followed {kind : Kind} {lexeme rest : List Char}
    (alone : Longest kind lexeme lexeme) (separate : Separate lexeme rest) :
    Longest kind lexeme (lexeme ++ rest) where
  begins := List.prefix_append _ _
  matched := alone.matched
  longest := by
    intro other longer begins matched
    cases rest with
    | nil =>
        rw [List.append_nil] at begins
        exact begins.length_le
    | cons c rest =>
        apply Nat.le_of_not_lt
        intro beyond
        have next : lexeme ++ [c] <+: lexeme ++ c :: rest := by simp
        have extended : lexeme ++ [c] <+: longer :=
          List.prefix_of_prefix_length_le next begins (by rw [List.length_append]; exact beyond)
        exact separate c rfl other longer matched extended
  spelled := alone.spelled

/-- A word ends before whatever is no part of a word. -/
theorem separate_of_letter {first : Char} {others rest : List Char}
    (isLetter : Initial.ofChar first = .letter)
    (ends : ∀ c ∈ rest.head?, isWordPart c = false) : Separate (first :: others) rest := by
  rintro c isNext kind longer matched ⟨further, rfl⟩
  have isPart := matched.word (matched.initial.symm.trans isLetter) c (by simp)
  rw [ends c isNext] at isPart
  cases isPart

/-- A numeral ends before whatever is neither a digit nor a point. -/
theorem separate_of_digit {first : Char} {others rest : List Char}
    (isDigit : Initial.ofChar first = .digit)
    (ends : ∀ c ∈ rest.head?, c.isDigit = false ∧ c ≠ '.') : Separate (first :: others) rest := by
  rintro c isNext kind longer matched ⟨further, rfl⟩
  obtain ⟨noDigit, noPoint⟩ := ends c isNext
  have notDigit : ¬ c.isDigit := by simp [noDigit]
  rcases matched.numeral (matched.initial.symm.trans isDigit) with ⟨_, areDigits⟩ |
    ⟨_, whole, fraction, isDecimal, wholeDigits, _, fractionDigits⟩
  · exact notDigit (areDigits c (by simp))
  · have isMember : c ∈ whole ++ '.' :: fraction := by
      rw [← isDecimal]
      simp
    rcases List.mem_append.mp isMember with inWhole | behind
    · exact notDigit (wholeDigits c inWhole)
    · rcases List.mem_cons.mp behind with isPoint | inFraction
      · exact noPoint isPoint
      · exact notDigit (fractionDigits c inFraction)

/-- The characters with which a symbol goes on. -/
theorem Kind.symbol_tail {kind : Kind} {spelling : String} (isSymbol : kind ∈ Kind.symbols)
    (isSpelling : kind.spelling? = some spelling) :
    spelling.toList.tail ⊆ ['=', '&', '|'] := by
  have tails : ∀ kind ∈ Kind.symbols, ∀ spelling ∈ kind.spelling?,
      spelling.toList.tail ⊆ ['=', '&', '|'] := by
    decide
  exact tails kind isSymbol spelling isSpelling

/-- What no symbol goes on with. -/
def Unglued (rest : List Char) : Prop :=
  ∀ c ∈ rest.head?, c ∉ ['=', '&', '|']

theorem unglued_cons {c : Char} {rest : List Char} (free : c ∉ ['=', '&', '|']) :
    Unglued (c :: rest) := by
  rintro _ ⟨⟩
  exact free

theorem Matches.unglued {kind : Kind} {lexeme : List Char} (matched : Matches kind lexeme)
    (noMark : kind.initial ≠ .mark) (rest : List Char) : Unglued (lexeme ++ rest) := by
  cases lexeme with
  | nil => exact absurd rfl matched.ne_nil
  | cons first others =>
      apply unglued_cons
      intro isGlue
      simp only [List.mem_cons, List.not_mem_nil, or_false] at isGlue
      rcases isGlue with rfl | rfl | rfl <;> exact noMark (matched.initial.symm.trans (by decide))

theorem separate_of_mark {first : Char} {others rest : List Char}
    (isMark : Initial.ofChar first = .mark) (ends : Unglued rest) :
    Separate (first :: others) rest := by
  rintro c isNext kind longer matched ⟨further, rfl⟩
  have isSymbol : kind.initial = .mark := matched.initial.symm.trans isMark
  obtain ⟨spelling, isSpelling, isLonger⟩ := matched.symbol isSymbol
  apply ends c isNext
  apply Kind.symbol_tail (Kind.mem_symbols_iff.mpr isSymbol) isSpelling
  rw [← isLonger]
  simp

theorem Kind.longest_spelling {kind : Kind} {spelling : String}
    (isSpelling : kind.spelling? = some spelling) :
    Longest kind spelling.toList spelling.toList where
  begins := List.prefix_rfl
  matched := .spelled isSpelling
  longest := fun _ _ begins _ => begins.length_le
  spelled := by simp [isSpelling]

theorem longest_digits {digits : List Char} (nonempty : digits ≠ [])
    (areDigits : ∀ c ∈ digits, c.isDigit) : Longest .number digits digits where
  begins := List.prefix_rfl
  matched := .number nonempty areDigits
  longest := fun _ _ begins _ => begins.length_le
  spelled := by
    intro other matched different
    cases digits with
    | nil => exact absurd rfl nonempty
    | cons first digits =>
        have isDigit : other.initial = .digit :=
          matched.initial.symm.trans (Initial.ofChar_digit (areDigits first (by simp)))
        rcases matched.numeral isDigit with ⟨isNumber, _⟩ | ⟨_, whole, fraction, isDecimal, _⟩
        · exact absurd isNumber different
        · exact absurd (areDigits '.' (by simp [isDecimal])) (by decide)

end Token

/-- Wherever the text stands, and with anything behind it that may follow, it is read as tokens of
    these kinds and spellings. -/
def Spells (follows : List Char → Prop) (text : List Char) (words : List (Token.Kind × String)) :
    Prop :=
  ∀ before tokens rest, follows rest → Lexed before tokens (text ++ rest) →
    ∃ more, Lexed (before ++ text) (tokens ++ more) rest ∧ more.map Token.content = words

namespace Spells

variable {follows follows' : List Char → Prop} {text text' : List Char}
  {words words' : List (Token.Kind × String)}

theorem blank {c : Char} (isBlank : c ∈ [' ', '\t', '\r', '\x0c', '\n']) :
    Spells (fun _ => True) [c] [] := by
  intro before tokens rest _ lexed
  refine ⟨[], ?_, rfl⟩
  rw [List.append_nil]
  exact .blank lexed isBlank

theorem nil : Spells follows [] [] := by
  intro before tokens rest _ lexed
  exact ⟨[], by simpa using lexed, rfl⟩

theorem lexeme {kind : Token.Kind} {spelling : String}
    (alone : Token.Longest kind spelling.toList spelling.toList)
    (notLayout : kind.initial ≠ .blank)
    (separate : ∀ rest, follows rest → Token.Separate spelling.toList rest) :
    Spells follows spelling.toList [(kind, spelling)] := by
  intro before tokens rest mayFollow lexed
  rw [Ne, Token.Kind.initial_eq_blank_iff, not_or] at notLayout
  have longest := alone.followed (separate rest mayFollow)
  refine ⟨_, .token lexed longest notLayout.1 notLayout.2, ?_⟩
  rw [String.ofList_toList]
  rfl

/-- What may follow a word is decided by the class of its first character. -/
theorem word {kind : Token.Kind} {spelling : String}
    (alone : Token.Longest kind spelling.toList spelling.toList)
    (notLayout : kind.initial ≠ .blank)
    (separate : ∀ first others rest, Token.Initial.ofChar first = kind.initial → follows rest →
      Token.Separate (first :: others) rest) :
    Spells follows spelling.toList [(kind, spelling)] := by
  apply lexeme alone notLayout
  intro rest mayFollow
  have matched := alone.matched
  generalize spelling.toList = lexeme at matched ⊢
  cases lexeme with
  | nil => exact absurd rfl matched.ne_nil
  | cons first others => exact separate first others rest matched.initial mayFollow

theorem imp (spells : Spells follows text words) (narrower : ∀ rest, follows' rest → follows rest) :
    Spells follows' text words := by
  intro before tokens rest mayFollow lexed
  exact spells before tokens rest (narrower rest mayFollow) lexed

theorem symbol {kind : Token.Kind} {spelling : String} (isSymbol : kind ∈ Token.Kind.symbols)
    (isSpelling : kind.spelling? = some spelling) :
    Spells Token.Unglued spelling.toList [(kind, spelling)] := by
  have isMark : kind.initial = .mark := Token.Kind.mem_symbols_iff.mp isSymbol
  apply word (Token.Kind.longest_spelling isSpelling) (by simp [isMark])
  intro first others rest initial ends
  exact Token.separate_of_mark (initial.trans isMark) ends

theorem append (first : Spells follows text words) (second : Spells follows' text' words')
    (fits : ∀ rest, follows' rest → follows (text' ++ rest)) :
    Spells follows' (text ++ text') (words ++ words') := by
  intro before tokens rest mayFollow lexed
  rw [List.append_assoc] at lexed
  obtain ⟨more, lexed, rfl⟩ := first before tokens (text' ++ rest) (fits rest mayFollow) lexed
  obtain ⟨further, lexed, rfl⟩ := second (before ++ text) (tokens ++ more) rest mayFollow lexed
  refine ⟨more ++ further, ?_, List.map_append⟩
  rw [← List.append_assoc, ← List.append_assoc]
  exact lexed

theorem tokenize {source : String} (spells : Spells follows source.toList words)
    (ends : follows []) :
    ∃ tokens, TinyImp.tokenize source = .ok tokens ∧ tokens.map Token.content = words := by
  obtain ⟨tokens, lexed, isContent⟩ := spells [] [] [] ends .start
  exact ⟨tokens, tokenize_of_lexed lexed, isContent⟩

end Spells

/-- The lexeme would also be taken if it stood alone. -/
def Token.WellSpelled (token : Token) : Prop :=
  Token.Longest token.kind token.lexeme.toList token.lexeme.toList

theorem Lexed.wellSpelled {before rest : List Char} {tokens : List Token}
    (lexed : Lexed before tokens rest) : ∀ token ∈ tokens, token.WellSpelled := by
  induction lexed with
  | start => simp
  | blank _ _ ih => exact ih
  | token _ longest _ _ ih =>
      intro token isMember
      rcases List.mem_append.mp isMember with earlier | isLast
      · exact ih token earlier
      · cases List.mem_singleton.mp isLast
        rw [Token.WellSpelled, String.toList_ofList]
        exact longest.cut List.prefix_rfl longest.begins

end TinyImp
