import TinyImp.Token.Scan

/-! # Lexemes

The rules of the lexemes, and what it means to be the longest of them at the head of a text. The
class of a character decides which rules can begin with it, so the proof that the scanner finds the
longest lexeme treats one class at a time.
-/

namespace TinyImp.Token

/-- The rule of each kind: which texts are lexemes of it. -/
inductive Matches : Kind → List Char → Prop where
  | spelled {kind : Kind} {spelling : String} :
      kind.spelling? = some spelling →
      Matches kind spelling.toList
  | decimal {whole fraction : List Char} :
      whole ≠ [] →
      (∀ c ∈ whole, c.isDigit) →
      fraction ≠ [] →
      (∀ c ∈ fraction, c.isDigit) →
      Matches .decimal (whole ++ '.' :: fraction)
  | number {digits : List Char} :
      digits ≠ [] →
      (∀ c ∈ digits, c.isDigit) →
      Matches .number digits
  | quoted {body : List Char} :
      (∀ c ∈ body, c ≠ '"' ∧ c ≠ '\n') →
      Matches .quoted ('"' :: body ++ ['"'])
  | identifier {first : Char} {others : List Char} :
      first.isAlpha ∨ first = '_' →
      (∀ c ∈ others, c.isAlphanum ∨ c = '_') →
      Matches .identifier (first :: others)
  | newLine : Matches .newLine ['\n']
  | ignored {blanks : List Char} :
      blanks ≠ [] →
      (∀ c ∈ blanks, c ∈ [' ', '\t', '\r', '\x0c']) →
      Matches .ignored blanks

/-- The lexeme that is to be taken from the head of a text: no rule matches more of the text, and
    where two rules match as much, it is of the kind that is spelled in one way only. -/
structure Longest (kind : Kind) (lexeme text : List Char) : Prop where
  begins : lexeme <+: text
  matched : Matches kind lexeme
  longest : ∀ other longer, longer <+: text → Matches other longer → longer.length ≤ lexeme.length
  spelled : ∀ other, Matches other lexeme → other ≠ kind → kind.spelling? ≠ none

/-- No rule matches a text that this one begins with. -/
def Unmatched (text : List Char) : Prop :=
  ∀ kind lexeme, lexeme <+: text → ¬ Matches kind lexeme

theorem Kind.mem_all (kind : Kind) : kind ∈ Kind.all := by
  cases kind <;> decide

theorem Kind.eq_of_spelling?_eq {kind other : Kind} {spelling : String}
    (isSpelling : kind.spelling? = some spelling) (isOther : other.spelling? = some spelling) :
    kind = other := by
  have distinct : ∀ kind ∈ Kind.all, ∀ other ∈ Kind.all,
      kind.spelling? = other.spelling? → kind.spelling?.isSome → kind = other := by
    decide
  exact distinct kind kind.mem_all other other.mem_all (isSpelling.trans isOther.symm)
    (by simp [isSpelling])

theorem Matches.eq_spelling {kind : Kind} {lexeme : List Char} {spelling : String}
    (matched : Matches kind lexeme) (isSpelling : kind.spelling? = some spelling) :
    lexeme = spelling.toList := by
  cases matched with
  | spelled isOther =>
      rw [isSpelling] at isOther
      cases isOther
      rfl
  | _ => cases isSpelling

/-- At most one lexeme is to be taken from a text. -/
theorem Longest.unique {kind other : Kind} {lexeme otherLexeme text : List Char}
    (found : Longest kind lexeme text) (foundOther : Longest other otherLexeme text) :
    kind = other ∧ lexeme = otherLexeme := by
  have atMost := found.longest other otherLexeme foundOther.begins foundOther.matched
  have atLeast := foundOther.longest kind lexeme found.begins found.matched
  have same : lexeme = otherLexeme :=
    (List.prefix_of_prefix_length_le found.begins foundOther.begins atLeast).eq_of_length
      (by omega)
  subst same
  refine ⟨?_, rfl⟩
  by_cases agree : other = kind
  · exact agree.symm
  · obtain ⟨spelling, isSpelling⟩ :=
      Option.ne_none_iff_exists'.mp (found.spelled other foundOther.matched agree)
    obtain ⟨otherSpelling, isOther⟩ :=
      Option.ne_none_iff_exists'.mp (foundOther.spelled kind found.matched (Ne.symm agree))
    have alike : spelling.toList = otherSpelling.toList := by
      rw [← found.matched.eq_spelling isSpelling, foundOther.matched.eq_spelling isOther]
    rw [String.toList_inj] at alike
    subst alike
    exact Kind.eq_of_spelling?_eq isSpelling isOther

/-- A lexeme that is to be taken is also to be taken when the text is cut off behind it. -/
theorem Longest.cut {kind : Kind} {lexeme text shorter : List Char}
    (found : Longest kind lexeme text) (begins : lexeme <+: shorter) (cut : shorter <+: text) :
    Longest kind lexeme shorter where
  begins := begins
  matched := found.matched
  longest := by
    intro other longer isBegun matched
    exact found.longest other longer (isBegun.trans cut) matched
  spelled := found.spelled

/-- The classes of characters with which lexemes begin. -/
inductive Initial where
  | letter
  | digit
  | quote
  | blank
  | mark
  deriving DecidableEq

def Initial.ofChar (c : Char) : Initial :=
  if isWordStart c then .letter
  else if c.isDigit then .digit
  else if c = '"' then .quote
  else if isBlank c then .blank
  else .mark

def Kind.initial : Kind → Initial
  | .decimal | .number => .digit
  | .quoted => .quote
  | .newLine | .ignored => .blank
  | .identifier => .letter
  | kind => if kind ∈ Kind.keywords then .letter else .mark

theorem not_isWordStart_of_isDigit {c : Char} (isDigit : c.isDigit) : isWordStart c = false := by
  simp only [Char.isDigit, Bool.and_eq_true, decide_eq_true_eq] at isDigit
  have notUnderscore : c ≠ '_' := by
    rintro rfl
    exact absurd isDigit (by decide)
  unfold isWordStart Char.isAlpha Char.isUpper Char.isLower
  grind

theorem Initial.ofChar_digit {c : Char} (isDigit : c.isDigit) : Initial.ofChar c = .digit := by
  simp [Initial.ofChar, not_isWordStart_of_isDigit isDigit, isDigit]

theorem isBlank_iff {c : Char} : isBlank c ↔ c ∈ [' ', '\t', '\r', '\x0c', '\n'] := by
  simp [isBlank, or_assoc]

theorem Initial.ofChar_eq_blank_iff {c : Char} : Initial.ofChar c = .blank ↔ isBlank c := by
  constructor
  · intro isInitial
    unfold Initial.ofChar at isInitial
    grind
  · intro blank
    rw [isBlank_iff] at blank
    simp only [List.mem_cons, List.not_mem_nil, or_false] at blank
    rcases blank with rfl | rfl | rfl | rfl | rfl <;> decide

theorem Matches.initial {kind : Kind} {first : Char} {others : List Char}
    (matched : Matches kind (first :: others)) : Initial.ofChar first = kind.initial := by
  generalize whole : first :: others = lexeme at matched
  cases matched with
  | @spelled _ spelling isSpelling =>
      have spelled : ∀ kind ∈ Kind.all, ∀ spelling ∈ kind.spelling?,
          spelling.toList.head?.map Initial.ofChar = some kind.initial := by
        decide
      have atHead := spelled kind kind.mem_all spelling isSpelling
      rw [← whole] at atHead
      exact Option.some.inj atHead
  | @decimal digits fraction nonempty areDigits =>
      cases digits with
      | nil => exact absurd rfl nonempty
      | cons digit digits =>
          cases whole
          exact Initial.ofChar_digit (areDigits first (by simp))
  | number nonempty areDigits =>
      subst whole
      exact Initial.ofChar_digit (areDigits first (by simp))
  | quoted =>
      cases whole
      decide
  | identifier isStart =>
      cases whole
      have isLetter : isWordStart first := by simpa [isWordStart] using isStart
      simp [Initial.ofChar, isLetter, Kind.initial]
  | newLine =>
      cases whole
      decide
  | ignored nonempty areBlank =>
      subst whole
      exact Initial.ofChar_eq_blank_iff.mpr
        (isBlank_iff.mpr (List.mem_append_left ['\n'] (areBlank first (by simp))))

theorem Matches.ne_nil {kind : Kind} {lexeme : List Char} (matched : Matches kind lexeme) :
    lexeme ≠ [] := by
  cases matched with
  | @spelled _ spelling isSpelling =>
      have spelled : ∀ kind ∈ Kind.all, ∀ spelling ∈ kind.spelling?, spelling.toList ≠ [] := by
        decide
      exact spelled kind kind.mem_all spelling isSpelling
  | decimal nonempty => simp
  | number nonempty => exact nonempty
  | quoted => simp
  | identifier => simp
  | newLine => simp
  | ignored nonempty => exact nonempty

/-- A match at the head of a text begins with its first character. -/
theorem Matches.at_head {kind : Kind} {lexeme rest : List Char} {first : Char}
    (matched : Matches kind lexeme) (begins : lexeme <+: first :: rest) :
    ∃ others, lexeme = first :: others ∧ others <+: rest ∧
      Initial.ofChar first = kind.initial := by
  rcases List.prefix_cons_iff.mp begins with rfl | ⟨others, rfl, further⟩
  · exact absurd rfl matched.ne_nil
  · exact ⟨others, rfl, further, matched.initial⟩

/-- Only layout holds line feeds. -/
theorem Matches.no_feed {kind : Kind} {lexeme : List Char} (matched : Matches kind lexeme)
    (notLayout : kind.initial ≠ .blank) : '\n' ∉ lexeme := by
  have noDigit {digits : List Char} (areDigits : ∀ c ∈ digits, c.isDigit) : '\n' ∉ digits := by
    intro isMember
    exact absurd (areDigits '\n' isMember) (by decide)
  cases matched with
  | @spelled _ spelling isSpelling =>
      have spelled : ∀ kind ∈ Kind.all, ∀ spelling ∈ kind.spelling?, '\n' ∉ spelling.toList := by
        decide
      exact spelled kind kind.mem_all spelling isSpelling
  | decimal _ wholeDigits _ fractionDigits =>
      simp [noDigit wholeDigits, noDigit fractionDigits]
  | number _ areDigits => exact noDigit areDigits
  | quoted areQuotable =>
      have noFeed := fun isMember => (areQuotable '\n' isMember).2 rfl
      simpa using noFeed
  | @identifier first others isStart areParts =>
      intro isMember
      rcases List.mem_cons.mp isMember with rfl | isMember
      · exact absurd isStart (by decide)
      · exact absurd (areParts '\n' isMember) (by decide)
  | newLine => exact absurd rfl notLayout
  | ignored => exact absurd rfl notLayout

section Runs

variable {p : Char → Bool} {text : List Char}

theorem length_le_takeWhile {row : List Char} (begins : row <+: text) (all : ∀ c ∈ row, p c) :
    row.length ≤ (text.takeWhile p).length := by
  obtain ⟨rest, rfl⟩ := begins
  rw [List.takeWhile_append_of_pos all, List.length_append]
  omega

theorem of_mem_takeWhile {c : Char} (isMember : c ∈ text.takeWhile p) : p c :=
  List.all_eq_true.mp List.all_takeWhile c isMember

/-- A row that ends at a character outside it is the whole run. -/
theorem takeWhile_of_stop {row further : List Char} {stop : Char}
    (begins : row ++ stop :: further <+: text) (all : ∀ c ∈ row, p c) (stops : p stop = false) :
    text.takeWhile p = row ∧ ∃ rest, text.drop row.length = stop :: rest ∧ further <+: rest := by
  obtain ⟨rest, rfl⟩ := begins
  constructor
  · rw [List.append_assoc, List.takeWhile_append_of_pos all]
    simp [stops]
  · exact ⟨further ++ rest, by simp, ⟨rest, rfl⟩⟩

end Runs

theorem drop_takeWhile (p : Char → Bool) (text : List Char) :
    text.drop (text.takeWhile p).length = text.dropWhile p := by
  induction text with
  | nil => rfl
  | cons c text ih =>
      rw [List.takeWhile_cons, List.dropWhile_cons]
      split
      · simpa using ih
      · rfl

theorem Kind.mem_keywords_iff {kind : Kind} {spelling : String}
    (isSpelling : kind.spelling? = some spelling) :
    kind ∈ Kind.keywords ↔ kind.initial = .letter := by
  have sorted : ∀ kind ∈ Kind.all, kind.spelling?.isSome →
      (kind ∈ Kind.keywords ↔ kind.initial = .letter) := by
    decide
  exact sorted kind kind.mem_all (by simp [isSpelling])

theorem Kind.mem_symbols_iff {kind : Kind} : kind ∈ Kind.symbols ↔ kind.initial = .mark := by
  have sorted : ∀ kind ∈ Kind.all, (kind ∈ Kind.symbols ↔ kind.initial = .mark) := by
    decide
  exact sorted kind kind.mem_all

/-- Whatever begins with a letter is a word. -/
theorem Matches.word {kind : Kind} {first : Char} {others : List Char}
    (matched : Matches kind (first :: others)) (isLetter : kind.initial = .letter) :
    ∀ c ∈ others, isWordPart c := by
  generalize whole : first :: others = lexeme at matched
  cases matched with
  | @spelled _ spelling isSpelling =>
      have words : ∀ kind ∈ Kind.keywords, ∀ spelling ∈ kind.spelling?,
          spelling.toList.all isWordPart := by
        decide
      have isKeyword := (Kind.mem_keywords_iff isSpelling).mpr isLetter
      intro c isMember
      exact List.all_eq_true.mp (words kind isKeyword spelling isSpelling) c
        (by rw [← whole]; exact List.mem_cons_of_mem first isMember)
  | identifier _ areParts =>
      cases whole
      intro c isMember
      simpa [isWordPart] using areParts c isMember
  | _ => cases isLetter

theorem Kind.ofWord_longest {first : Char} {rest : List Char} (isStart : isWordStart first) :
    Longest (Kind.ofWord (String.ofList (first :: rest.takeWhile isWordPart)))
      (first :: rest.takeWhile isWordPart) (first :: rest) := by
  have isLetter : Initial.ofChar first = .letter := by simp [Initial.ofChar, isStart]
  have isIdentifier : Matches .identifier (first :: rest.takeWhile isWordPart) := by
    refine .identifier (by simpa [isWordStart] using isStart) ?_
    intro c isMember
    simpa [isWordPart] using of_mem_takeWhile isMember
  have longest : ∀ other longer, longer <+: first :: rest → Matches other longer →
      longer.length ≤ (first :: rest.takeWhile isWordPart).length := by
    intro other longer begins matched
    obtain ⟨others, rfl, begins, initial⟩ := matched.at_head begins
    have bound := length_le_takeWhile begins (matched.word (initial ▸ isLetter))
    simpa using bound
  have begins : first :: rest.takeWhile isWordPart <+: first :: rest :=
    List.cons_prefix_cons.mpr ⟨rfl, List.takeWhile_prefix _⟩
  unfold Kind.ofWord
  cases found : Kind.keywords.find? fun kind =>
      kind.spelling? == some (String.ofList (first :: rest.takeWhile isWordPart)) with
  | none =>
      refine ⟨begins, isIdentifier, longest, ?_⟩
      intro other matched different
      have alsoLetter : other.initial = .letter := matched.initial.symm.trans isLetter
      -- Another rule for the word could only be that of a reserved word it spells.
      generalize whole : first :: rest.takeWhile isWordPart = word at matched found
      cases matched with
      | @spelled _ spelling isSpelling =>
          have isKeyword := (Kind.mem_keywords_iff isSpelling).mpr alsoLetter
          have missed := List.find?_eq_none.mp found other isKeyword
          simp [isSpelling] at missed
      | identifier => exact absurd rfl different
      | _ => cases alsoLetter
  | some keyword =>
      have isSpelling := List.find?_some found
      simp only [beq_iff_eq] at isSpelling
      refine ⟨begins, ?_, longest, ?_⟩
      · have matched := Matches.spelled isSpelling
        rwa [String.toList_ofList] at matched
      · intro _ _ _
        simp [isSpelling]

theorem Kind.initial_of_spelling? {kind : Kind} {spelling : String}
    (isSpelling : kind.spelling? = some spelling) :
    kind.initial ≠ .digit ∧ kind.initial ≠ .quote := by
  have sorted : ∀ kind ∈ Kind.all, kind.spelling?.isSome →
      kind.initial ≠ .digit ∧ kind.initial ≠ .quote := by
    decide
  exact sorted kind kind.mem_all (by simp [isSpelling])

/-- Whatever begins with a digit is a numeral. -/
theorem Matches.numeral {kind : Kind} {lexeme : List Char} (matched : Matches kind lexeme)
    (isDigit : kind.initial = .digit) :
    (kind = .number ∧ ∀ c ∈ lexeme, c.isDigit) ∨
      (kind = .decimal ∧ ∃ whole fraction, lexeme = whole ++ '.' :: fraction ∧
        (∀ c ∈ whole, c.isDigit) ∧ fraction ≠ [] ∧ ∀ c ∈ fraction, c.isDigit) := by
  cases matched with
  | spelled isSpelling => exact absurd isDigit (Kind.initial_of_spelling? isSpelling).1
  | @decimal whole fraction _ wholeDigits nonempty fractionDigits =>
      exact .inr ⟨rfl, whole, fraction, rfl, wholeDigits, nonempty, fractionDigits⟩
  | number _ areDigits => exact .inl ⟨rfl, areDigits⟩
  | _ => cases isDigit

/-- A fraction at the head of a text stands behind the run of digits. -/
theorem fraction_bound {text whole fraction : List Char}
    (begins : whole ++ '.' :: fraction <+: text) (wholeDigits : ∀ c ∈ whole, c.isDigit)
    (fractionDigits : ∀ c ∈ fraction, c.isDigit) :
    text.takeWhile Char.isDigit = whole ∧ ∃ rest, text.dropWhile Char.isDigit = '.' :: rest ∧
      fraction.length ≤ (rest.takeWhile Char.isDigit).length := by
  obtain ⟨run, rest, atPoint, further⟩ := takeWhile_of_stop begins wholeDigits (by decide)
  refine ⟨run, rest, ?_, length_le_takeWhile further fractionDigits⟩
  rw [← drop_takeWhile, run]
  exact atPoint

/-- A row of digits is the lexeme where no fraction follows. -/
theorem number_longest {first : Char} {rest : List Char} (isDigit : first.isDigit)
    (noFraction : ∀ further, (first :: rest).dropWhile Char.isDigit = '.' :: further →
      further.takeWhile Char.isDigit = []) :
    Longest .number ((first :: rest).takeWhile Char.isDigit) (first :: rest) where
  begins := List.takeWhile_prefix _
  matched := .number (by simp [isDigit]) (fun _ => of_mem_takeWhile)
  longest := by
    intro other longer begins matched
    obtain ⟨_, _, _, initial⟩ := matched.at_head begins
    rcases matched.numeral (initial ▸ Initial.ofChar_digit isDigit) with ⟨_, areDigits⟩ |
      ⟨_, whole, fraction, rfl, wholeDigits, nonempty, fractionDigits⟩
    · exact length_le_takeWhile begins areDigits
    · -- A decimal would have its point where the run of digits ends, and digits behind it.
      obtain ⟨_, further, atPoint, bound⟩ := fraction_bound begins wholeDigits fractionDigits
      rw [noFraction further atPoint] at bound
      exact absurd (List.length_eq_zero_iff.mp (Nat.le_zero.mp bound)) nonempty
  spelled := by
    intro other matched different
    obtain ⟨_, _, _, initial⟩ := matched.at_head (List.takeWhile_prefix _)
    rcases matched.numeral (initial ▸ Initial.ofChar_digit isDigit) with ⟨isNumber, _⟩ |
      ⟨_, whole, fraction, run, _⟩
    · exact absurd isNumber different
    · have isRun : '.' ∈ (first :: rest).takeWhile Char.isDigit := by simp [run]
      exact absurd (of_mem_takeWhile isRun) (by decide)

theorem decimal_begins {text further : List Char}
    (atPoint : text.dropWhile Char.isDigit = '.' :: further) :
    text.takeWhile Char.isDigit ++ '.' :: further.takeWhile Char.isDigit <+: text := by
  conv => rhs; rw [← List.takeWhile_append_dropWhile (p := Char.isDigit) (l := text)]
  rw [atPoint, List.prefix_append_right_inj, List.cons_prefix_cons]
  exact ⟨rfl, List.takeWhile_prefix _⟩

theorem decimal_longest {first : Char} {rest further : List Char} (isDigit : first.isDigit)
    (atPoint : (first :: rest).dropWhile Char.isDigit = '.' :: further)
    (nonempty : further.takeWhile Char.isDigit ≠ []) :
    Longest .decimal
      ((first :: rest).takeWhile Char.isDigit ++ '.' :: further.takeWhile Char.isDigit)
      (first :: rest) where
  begins := decimal_begins atPoint
  matched := .decimal (by simp [isDigit]) (fun _ => of_mem_takeWhile) nonempty
    (fun _ => of_mem_takeWhile)
  longest := by
    intro other longer begins matched
    obtain ⟨_, _, _, initial⟩ := matched.at_head begins
    rcases matched.numeral (initial ▸ Initial.ofChar_digit isDigit) with ⟨_, areDigits⟩ |
      ⟨_, whole, fraction, rfl, wholeDigits, _, fractionDigits⟩
    · have bound := length_le_takeWhile begins areDigits
      rw [List.length_append]
      omega
    · obtain ⟨run, beyond, sameRest, bound⟩ := fraction_bound begins wholeDigits fractionDigits
      rw [atPoint] at sameRest
      cases sameRest
      simp only [run, List.length_append, List.length_cons]
      omega
  spelled := by
    intro other matched different
    obtain ⟨_, _, _, initial⟩ := matched.at_head (decimal_begins atPoint)
    rcases matched.numeral (initial ▸ Initial.ofChar_digit isDigit) with ⟨_, areDigits⟩ |
      ⟨isDecimal, _⟩
    · exact absurd (areDigits '.' (by simp)) (by decide)
    · exact absurd isDecimal different

/-- A numeral takes its fraction along only if the point has one. -/
theorem numeral_longest {first : Char} {rest : List Char} (isDigit : first.isDigit) :
    ∃ lexeme, (numeral (first :: rest)).2 = lexeme.length ∧
      Longest (numeral (first :: rest)).1 lexeme (first :: rest) := by
  simp only [Token.numeral, drop_takeWhile]
  split
  next further atPoint =>
    split
    next noDigits =>
      refine ⟨_, rfl, number_longest isDigit ?_⟩
      intro other same
      rw [atPoint] at same
      cases same
      exact noDigits
    next nonempty =>
      exact ⟨_, by simp; omega, decimal_longest isDigit atPoint nonempty⟩
  next noPoint =>
    refine ⟨_, rfl, number_longest isDigit ?_⟩
    intro further atPoint
    exact absurd atPoint (noPoint further)

/-- Whatever begins with a quote is a text between quotes. -/
theorem Matches.quotation {kind : Kind} {lexeme : List Char} (matched : Matches kind lexeme)
    (isQuote : kind.initial = .quote) :
    kind = .quoted ∧ ∃ body, lexeme = '"' :: body ++ ['"'] ∧ ∀ c ∈ body, isQuotable c := by
  cases matched with
  | spelled isSpelling => exact absurd isQuote (Kind.initial_of_spelling? isSpelling).2
  | @quoted body areQuotable =>
      refine ⟨rfl, body, rfl, ?_⟩
      intro c isMember
      simpa [isQuotable] using areQuotable c isMember
  | _ => cases isQuote

/-- A text between quotes can only end at the next quote. -/
theorem Matches.quotation_eq {kind : Kind} {lexeme rest : List Char}
    (matched : Matches kind lexeme) (begins : lexeme <+: '"' :: rest) :
    kind = .quoted ∧ lexeme = '"' :: rest.takeWhile isQuotable ++ ['"'] ∧
      ∃ further, rest.dropWhile isQuotable = '"' :: further := by
  obtain ⟨_, _, _, initial⟩ := matched.at_head begins
  obtain ⟨isQuoted, body, rfl, areQuotable⟩ := matched.quotation initial.symm
  obtain ⟨_, begins⟩ := List.cons_prefix_cons.mp begins
  obtain ⟨run, further, atQuote, _⟩ := takeWhile_of_stop begins areQuotable (by decide)
  refine ⟨isQuoted, by rw [run], further, ?_⟩
  rw [← drop_takeWhile, run]
  exact atQuote

theorem quotation?_longest {rest : List Char} {kind : Kind} {length : Nat}
    (found : quotation? rest = some (kind, length)) :
    ∃ lexeme, length = lexeme.length ∧ Longest kind lexeme ('"' :: rest) := by
  simp only [quotation?, drop_takeWhile] at found
  split at found
  next further atQuote =>
    cases found
    refine ⟨'"' :: rest.takeWhile isQuotable ++ ['"'], by simp, ?_, ?_, ?_, ?_⟩
    · conv => rhs; rw [← List.takeWhile_append_dropWhile (p := isQuotable) (l := rest)]
      simp [atQuote]
    · refine .quoted ?_
      intro c isMember
      simpa [isQuotable] using of_mem_takeWhile isMember
    · intro other longer begins matched
      exact Nat.le_of_eq (congrArg List.length (matched.quotation_eq begins).2.1)
    · intro other matched different
      exact absurd (matched.quotation matched.initial.symm).1 different
  next => cases found

theorem quotation?_none {rest : List Char} (missed : quotation? rest = none) :
    Unmatched ('"' :: rest) := by
  intro kind lexeme begins matched
  obtain ⟨_, _, further, atQuote⟩ := matched.quotation_eq begins
  simp [quotation?, drop_takeWhile, atQuote] at missed

/-- The spelling of a symbol at the head of a text. -/
theorem symbol_found_iff {text : List Char} {kind found : Kind} {length : Nat} :
    (kind.spelling?.bind fun spelling =>
      if spelling.toList.isPrefixOf text then some (kind, spelling.length) else none) =
        some (found, length) ↔
      found = kind ∧ ∃ spelling, kind.spelling? = some spelling ∧ spelling.toList <+: text ∧
        length = spelling.toList.length := by
  simp only [Option.bind_eq_some_iff, Option.ite_none_right_eq_some, List.isPrefixOf_iff_prefix,
    String.length_toList]
  grind

/-- Whatever begins with a mark is a symbol. -/
theorem Matches.symbol {kind : Kind} {lexeme : List Char} (matched : Matches kind lexeme)
    (isMark : kind.initial = .mark) :
    ∃ spelling, kind.spelling? = some spelling ∧ lexeme = spelling.toList := by
  cases matched with
  | @spelled _ spelling isSpelling => exact ⟨spelling, isSpelling, rfl⟩
  | _ => cases isMark

/-- No spelling of a symbol continues that of an earlier one. -/
theorem symbols_sorted :
    Kind.symbols.Pairwise fun earlier later =>
      ∀ spelling ∈ earlier.spelling?, ∀ further ∈ later.spelling?,
        spelling.toList <+: further.toList → further.toList.length ≤ spelling.toList.length := by
  decide

theorem symbol?_longest {first : Char} {rest : List Char} {kind : Kind} {length : Nat}
    (isMark : Initial.ofChar first = .mark)
    (found : symbol? (first :: rest) = some (kind, length)) :
    ∃ lexeme, length = lexeme.length ∧ Longest kind lexeme (first :: rest) := by
  obtain ⟨earlier, symbol, later, split, accepted, refuted⟩ := List.findSome?_eq_some_iff.mp found
  obtain ⟨rfl, spelling, isSpelling, begins, rfl⟩ := symbol_found_iff.mp accepted
  refine ⟨spelling.toList, rfl, begins, .spelled isSpelling, ?_, ?_⟩
  · intro other longer begun matched
    obtain ⟨_, _, _, initial⟩ := matched.at_head begun
    have markKind := initial.symm.trans isMark
    obtain ⟨further, isFurther, rfl⟩ := matched.symbol markKind
    have listed := Kind.mem_symbols_iff.mpr markKind
    rw [split, List.mem_append, List.mem_cons] at listed
    rcases listed with isEarlier | rfl | isLater
    · -- The search would have stopped at an earlier symbol.
      have missed := refuted other isEarlier
      rw [symbol_found_iff.mpr ⟨rfl, further, isFurther, begun, rfl⟩] at missed
      cases missed
    · rw [isSpelling] at isFurther
      cases isFurther
      exact Nat.le_refl _
    · have sorted := symbols_sorted
      rw [split, List.pairwise_append, List.pairwise_cons] at sorted
      have atMost := sorted.2.1.1 other isLater spelling isSpelling further isFurther
      rcases Nat.le_total further.toList.length spelling.toList.length with shorter | longer
      · exact shorter
      · exact atMost (List.prefix_of_prefix_length_le begins begun longer)
  · intro _ _ _
    simp [isSpelling]

theorem symbol?_none {first : Char} {rest : List Char}
    (isMark : Initial.ofChar first = .mark) (missed : symbol? (first :: rest) = none) :
    Unmatched (first :: rest) := by
  intro kind lexeme begins matched
  obtain ⟨_, _, _, initial⟩ := matched.at_head begins
  have markKind := initial.symm.trans isMark
  obtain ⟨spelling, isSpelling, rfl⟩ := matched.symbol markKind
  have refuted := List.findSome?_eq_none_iff.mp missed kind (Kind.mem_symbols_iff.mpr markKind)
  have accepted := symbol_found_iff.mpr ⟨rfl, spelling, isSpelling, begins, rfl⟩
  rw [refuted] at accepted
  cases accepted

/-- Where no blank stands, the scanner takes the lexeme that is to be taken. -/
theorem lexeme?_longest {first : Char} {rest : List Char} {kind : Kind} {length : Nat}
    (notBlank : isBlank first = false) (found : lexeme? (first :: rest) = some (kind, length)) :
    ∃ lexeme, length = lexeme.length ∧ Longest kind lexeme (first :: rest) := by
  simp only [lexeme?] at found
  split at found
  next isStart =>
    cases found
    exact ⟨_, rfl, Kind.ofWord_longest isStart⟩
  next noStart =>
    split at found
    next isDigit =>
      have numerals : ∃ lexeme, (numeral (first :: rest)).2 = lexeme.length ∧
          Longest (numeral (first :: rest)).1 lexeme (first :: rest) := numeral_longest isDigit
      rw [Option.some.inj found] at numerals
      exact numerals
    next noDigit =>
      split at found
      next isQuote =>
        subst isQuote
        exact quotation?_longest found
      next noQuote =>
        have isMark : Initial.ofChar first = .mark := by
          simp [Initial.ofChar, noStart, noDigit, noQuote, notBlank]
        exact symbol?_longest isMark found

/-- Where no blank stands, the scanner misses nothing. -/
theorem lexeme?_none {first : Char} {rest : List Char} (notBlank : isBlank first = false)
    (missed : lexeme? (first :: rest) = none) : Unmatched (first :: rest) := by
  simp only [lexeme?] at missed
  split at missed
  next => cases missed
  next noStart =>
    split at missed
    next => cases missed
    next noDigit =>
      split at missed
      next isQuote =>
        subst isQuote
        exact quotation?_none missed
      next noQuote =>
        have isMark : Initial.ofChar first = .mark := by
          simp [Initial.ofChar, noStart, noDigit, noQuote, notBlank]
        exact symbol?_none isMark missed

end TinyImp.Token
