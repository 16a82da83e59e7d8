import TinyImp.Proofs.Scanning

/-! # Scanning goes line by line

No lexeme holds a line feed, and neither does a refused text. So what is read before a line feed
does not depend on what stands behind it, and behind it the text is read as if it stood alone, only
so many lines further down.
-/

namespace TinyImp

/-- The same column so many lines further down. -/
def Position.down (lines : Nat) (position : Position) : Position :=
  { position with line := position.line + lines }

def Token.down (lines : Nat) (token : Token) : Token :=
  { token with toPosition := token.toPosition.down lines }

def LexError.down (lines : Nat) (error : LexError) : LexError :=
  { error with toPosition := error.toPosition.down lines }

theorem takeWhile_before_stop {p : Char → Bool} {stop : Char} (stops : p stop = false)
    (text rest : List Char) : (text ++ stop :: rest).takeWhile p = text.takeWhile p := by
  induction text with
  | nil => simp [stops]
  | cons c text ih => simp only [List.cons_append, List.takeWhile_cons, ih]

/-- Behind a line feed columns start afresh. -/
theorem Position.behind_feed (first before : List Char) :
    Position.behind (first ++ '\n' :: before) =
      (Position.behind before).down (1 + first.count '\n') := by
  have lines : (first ++ '\n' :: before).count '\n' =
      before.count '\n' + (1 + first.count '\n') := by
    simp only [List.count_append, List.count_cons_self]
    omega
  have columns : (first ++ '\n' :: before).reverse.takeWhile (· ≠ '\n') =
      before.reverse.takeWhile (· ≠ '\n') := by
    rw [List.reverse_append, List.reverse_cons, List.append_assoc, List.singleton_append]
    exact takeWhile_before_stop (by simp) _ _
  simp only [Position.behind, Position.down, lines, columns, Nat.add_assoc]

namespace Token

/-- Where no blank stands, whatever is matched before a line feed ends before it. -/
theorem Matches.before_feed {kind : Kind} {lexeme text rest : List Char} {first : Char}
    (matched : Matches kind lexeme) (notBlank : isBlank first = false)
    (begins : lexeme <+: first :: text ++ '\n' :: rest) : lexeme <+: first :: text := by
  obtain ⟨_, _, _, initial⟩ := matched.at_head begins
  have notLayout : kind.initial ≠ .blank := by
    rw [← initial, Ne, Initial.ofChar_eq_blank_iff, notBlank]
    decide
  have noFeed := matched.no_feed notLayout
  rcases Nat.le_total lexeme.length (first :: text).length with shorter | longer
  · exact List.prefix_of_prefix_length_le begins (List.prefix_append _ _) shorter
  · have whole := List.prefix_of_prefix_length_le (List.prefix_append _ _) begins longer
    obtain ⟨further, rfl⟩ := whole
    rw [List.prefix_append_right_inj, List.prefix_cons_iff] at begins
    rcases begins with rfl | ⟨others, rfl, _⟩
    · simp
    · simp at noFeed

theorem Longest.before_feed {kind : Kind} {lexeme text : List Char}
    (found : Longest kind lexeme text) (notLayout : kind.initial ≠ .blank) (rest : List Char) :
    Longest kind lexeme (text ++ '\n' :: rest) where
  begins := found.begins.trans (List.prefix_append _ _)
  matched := found.matched
  longest := by
    intro other longer begins matched
    cases text with
    | nil => exact absurd (List.prefix_nil.mp found.begins) found.matched.ne_nil
    | cons first text =>
        obtain ⟨_, _, _, initial⟩ := found.matched.at_head found.begins
        rw [← initial, Ne, Initial.ofChar_eq_blank_iff, Bool.not_eq_true] at notLayout
        exact found.longest other longer (matched.before_feed notLayout begins) matched
  spelled := found.spelled

theorem Unmatched.before_feed {text : List Char} (unmatched : Unmatched text) (nonempty : text ≠ [])
    (rest : List Char) : Unmatched (text ++ '\n' :: rest) := by
  intro kind lexeme begins matched
  cases text with
  | nil => exact nonempty rfl
  | cons first text =>
      exact unmatched kind lexeme (matched.before_feed unmatched.not_blank begins) matched

theorem refused_before_feed {text : List Char} (nonempty : text ≠ []) (rest : List Char) :
    refused (text ++ '\n' :: rest) = refused text := by
  cases text with
  | nil => exact absurd rfl nonempty
  | cons first text =>
      rw [refused_eq, refused_eq, takeWhile_before_stop (by simp)]
      simp

end Token

/-- What has been read of a text is also read if a line feed and another text follow it. -/
theorem Lexed.before_feed {before rest : List Char} {tokens : List Token}
    (lexed : Lexed before tokens rest) (more : List Char) :
    Lexed before tokens (rest ++ '\n' :: more) := by
  induction lexed with
  | start => exact .start
  | blank _ isBlank ih => exact .blank ih isBlank
  | @token before lexeme rest tokens kind _ longest notFeed notIgnored ih =>
      have notLayout : kind.initial ≠ .blank := by
        simp [Token.Kind.initial_eq_blank_iff, notFeed, notIgnored]
      have longest := longest.before_feed notLayout more
      rw [List.append_assoc] at ih longest
      exact .token ih longest notFeed notIgnored

/-- What is read of a text is also read behind a line feed, only further down. -/
theorem Lexed.behind_feed {first before rest : List Char} {tokens others : List Token}
    (above : Lexed first tokens ('\n' :: (before ++ rest))) (lexed : Lexed before others rest) :
    Lexed (first ++ '\n' :: before)
      (tokens ++ others.map (Token.down (1 + first.count '\n'))) rest := by
  induction lexed with
  | start =>
      rw [List.map_nil, List.append_nil]
      exact .blank above (by simp)
  | @blank before rest others c _ isBlank ih =>
      rw [List.append_assoc] at above
      have below := Lexed.blank (ih above) isBlank
      rwa [List.append_assoc] at below
  | @token before lexeme rest others kind _ longest notFeed notIgnored ih =>
      rw [List.append_assoc] at above
      have below := Lexed.token (ih above) longest notFeed notIgnored
      rw [Position.behind_feed, List.append_assoc, List.append_assoc] at below
      rw [List.map_append]
      exact below

/-- Of two texts with a line feed between them, the first is scanned as if it stood alone, and if it
    has no error, so is the second: its tokens follow those of the first, or its error is the error
    of the whole, with as many lines added as the first text has. -/
theorem scanning_goes_line_by_line (first second : String) :
    (∀ error, tokenize first = .error error →
      tokenize (first ++ "\n" ++ second) = .error error) ∧
    (∀ tokens others, tokenize first = .ok tokens → tokenize second = .ok others →
      tokenize (first ++ "\n" ++ second) =
        .ok (tokens ++ others.map (Token.down (1 + first.toList.count '\n')))) ∧
    (∀ tokens error, tokenize first = .ok tokens → tokenize second = .error error →
      tokenize (first ++ "\n" ++ second) = .error (error.down (1 + first.toList.count '\n'))) := by
  have split : (first ++ "\n" ++ second).toList = first.toList ++ '\n' :: second.toList := by simp
  have above {tokens : List Token} (scanned : tokenize first = .ok tokens) :
      Lexed first.toList tokens ('\n' :: second.toList) :=
    (Lexed.of_tokenize scanned).before_feed second.toList
  refine ⟨?inFirst, ?inNone, ?inSecond⟩
  case inFirst =>
    intro error fails
    rcases tokenize_cases first with ⟨_, _, run⟩ |
      ⟨before, tokens, rest, parts, lexed, nonempty, unmatched, run⟩
    · rw [fails] at run
      cases run
    · rw [parts, List.append_assoc] at split
      rw [tokenize_of_unmatched split (lexed.before_feed second.toList) (by simp)
        (unmatched.before_feed nonempty second.toList), Token.refused_before_feed nonempty,
        ← run, fails]
  case inNone =>
    intro tokens others scanned scannedSecond
    have lexed := Lexed.of_tokenize scannedSecond
    apply tokenize_of_lexed
    rw [split]
    exact Lexed.behind_feed (by simpa using above scanned) lexed
  case inSecond =>
    intro tokens error scanned fails
    rcases tokenize_cases second with ⟨_, _, run⟩ |
      ⟨before, others, rest, parts, lexed, nonempty, unmatched, run⟩
    · rw [fails] at run
      cases run
    · have below := Lexed.behind_feed (parts ▸ above scanned) lexed
      have split : (first ++ "\n" ++ second).toList =
          (first.toList ++ '\n' :: before) ++ rest := by
        rw [split, parts]
        simp
      rw [fails] at run
      cases run
      rw [tokenize_of_unmatched split below nonempty unmatched, Position.behind_feed]
      rfl

/-- A quotation is not closed on the next line, nor does an operator or a numeral go on there. -/
theorem nothing_goes_on_behind_a_line_feed :
    let sign : List Token := [⟨⟨1, 1⟩, .identifier, "a"⟩, ⟨⟨2, 2⟩, .equals, "="⟩]
    let value : List Token := [⟨⟨1, 1⟩, .equals, "="⟩, ⟨⟨1, 3⟩, .number, "1"⟩]
    let numeral : List Token := [⟨⟨1, 1⟩, .number, "1"⟩]
    tokenize "x \"y" = .error { line := 1, column := 3, text := "\"y" } ∧
    tokenize "x \"y\n\"" = .error { line := 1, column := 3, text := "\"y" } ∧
    tokenize "a\n =" = .ok sign ∧ tokenize "= 1" = .ok value ∧
    tokenize "a\n =\n= 1" =
      .ok (sign ++ [⟨⟨3, 1⟩, .equals, "="⟩, ⟨⟨3, 3⟩, .number, "1"⟩]) ∧
    tokenize "1" = .ok numeral ∧
    tokenize ".5" = .error { line := 1, column := 1, text := "." } ∧
    tokenize "1\n.5" = .error { line := 2, column := 1, text := "." } := by
  intro sign value numeral
  have openQuote : tokenize "x \"y" = .error { line := 1, column := 3, text := "\"y" } := rfl
  have scannedSign : tokenize "a\n =" = .ok sign := rfl
  have scannedValue : tokenize "= 1" = .ok value := rfl
  have scannedNumeral : tokenize "1" = .ok numeral := rfl
  have barePoint : tokenize ".5" = .error { line := 1, column := 1, text := "." } := rfl
  exact ⟨openQuote, (scanning_goes_line_by_line "x \"y" "\"").1 _ openQuote, scannedSign,
    scannedValue,
    (scanning_goes_line_by_line "a\n =" "= 1").2.1 sign value scannedSign scannedValue,
    scannedNumeral, barePoint,
    (scanning_goes_line_by_line "1" ".5").2.2 numeral _ scannedNumeral barePoint⟩

end TinyImp
