import TinyImp.Proofs.Lexemes

/-! # The scanner reads exactly the lexemes

A source is read from its head: blanks are passed over, and elsewhere the longest lexeme is taken
along with the place where it begins. Reading ends with the source, or where no rule matches.
-/

namespace TinyImp

/-- A token without its position. -/
def Token.content (token : Token) : Token.Kind × String :=
  (token.kind, token.lexeme)

/-- The position behind a text: lines are counted by the line feeds, columns from the last one. -/
def Position.behind (before : List Char) : Position where
  line := 1 + before.count '\n'
  column := 1 + (before.reverse.takeWhile (· ≠ '\n')).length

namespace Token.Cursor

/-- The cursor behind a text. -/
def behind (before : List Char) : Cursor where
  line := 1 + before.count '\n'
  lineStart := before.length - (before.reverse.takeWhile (· ≠ '\n')).length
  offset := before.length

theorem behind_position (before : List Char) : (behind before).position = Position.behind before := by
  have inside : (before.reverse.takeWhile (· ≠ '\n')).length ≤ before.length := by
    simpa using (List.takeWhile_prefix (p := (· ≠ '\n')) (l := before.reverse)).length_le
  simp only [position, behind, Position.behind, Position.mk.injEq, true_and]
  omega

theorem behind_pass (before : List Char) {c : Char} (noFeed : c ≠ '\n') :
    (behind before).pass = behind (before ++ [c]) := by
  simp [behind, pass, noFeed]

theorem behind_newLine (before : List Char) :
    (behind before).newLine = behind (before ++ ['\n']) := by
  simp [behind, newLine, Nat.add_assoc]

end Token.Cursor

/-- The text up to `rest` reads as the tokens. Each lexeme is chosen with all that follows it in
    view. -/
inductive Lexed : (before : List Char) → List Token → (rest : List Char) → Prop where
  | start {text : List Char} : Lexed [] [] text
  | blank {before rest : List Char} {tokens : List Token} {c : Char} :
      Lexed before tokens (c :: rest) →
      c ∈ [' ', '\t', '\r', '\x0c', '\n'] →
      Lexed (before ++ [c]) tokens rest
  | token {before lexeme rest : List Char} {tokens : List Token} {kind : Token.Kind} :
      Lexed before tokens (lexeme ++ rest) →
      Token.Longest kind lexeme (lexeme ++ rest) →
      kind ≠ .newLine →
      kind ≠ .ignored →
      Lexed (before ++ lexeme)
        (tokens ++ [{ Position.behind before with kind, lexeme := String.ofList lexeme }]) rest

/-- What has been read does not depend on what is cut off behind it. -/
theorem Lexed.cut {before rest : List Char} {tokens : List Token}
    (lexed : Lexed before tokens rest) {kept : List Char} (isKept : kept <+: rest) :
    Lexed before tokens kept := by
  induction lexed generalizing kept with
  | start => exact .start
  | blank lexed isBlank ih =>
      exact .blank (ih (List.cons_prefix_cons.mpr ⟨rfl, isKept⟩)) isBlank
  | @token _ lexeme _ _ _ lexed longest notFeed notIgnored ih =>
      have keeps := (List.prefix_append_right_inj lexeme).mpr isKept
      exact .token (ih keeps) (longest.cut (List.prefix_append _ _) keeps) notFeed notIgnored

namespace Token

/-- The characters of a lexeme are passed over one by one, on one line. -/
theorem scan_skip (before text : List Char) (skip : Nat) (enough : skip ≤ text.length)
    (noFeed : '\n' ∉ text.take skip) :
    scan (Cursor.behind before) skip text =
      scan (Cursor.behind (before ++ text.take skip)) 0 (text.drop skip) := by
  induction text generalizing before skip with
  | nil =>
      have none_skipped : skip = 0 := by simpa using enough
      simp [none_skipped]
  | cons c rest ih =>
      cases skip with
      | zero => simp
      | succ skip =>
          rw [List.length_cons] at enough
          rw [List.take_succ_cons, List.mem_cons, not_or] at noFeed
          rw [scan, Cursor.behind_pass before (Ne.symm noFeed.1),
            ih (before ++ [c]) skip (by omega) noFeed.2]
          simp

theorem Kind.initial_eq_blank_iff {kind : Kind} :
    kind.initial = .blank ↔ kind = .newLine ∨ kind = .ignored := by
  have sorted : ∀ kind ∈ Kind.all, (kind.initial = .blank ↔ kind = .newLine ∨ kind = .ignored) := by
    decide
  exact sorted kind kind.mem_all

/-- Blanks begin layout, and nothing else does. -/
theorem Matches.isBlank_iff_layout {kind : Kind} {first : Char} {others : List Char}
    (matched : Matches kind (first :: others)) :
    isBlank first ↔ kind = .newLine ∨ kind = .ignored := by
  rw [← Kind.initial_eq_blank_iff, ← matched.initial, Initial.ofChar_eq_blank_iff]

/-- Some rule matches every blank. -/
theorem Unmatched.not_blank {first : Char} {rest : List Char}
    (unmatched : Unmatched (first :: rest)) : isBlank first = false := by
  cases blank : isBlank first with
  | false => rfl
  | true =>
      have begins : [first] <+: first :: rest := List.cons_prefix_cons.mpr ⟨rfl, List.nil_prefix⟩
      by_cases isFeed : first = '\n'
      · subst isFeed
        exact absurd .newLine (unmatched .newLine _ begins)
      · have isIgnored : Matches .ignored [first] := by
          refine .ignored (by simp) ?_
          intro c isFirst
          cases List.mem_singleton.mp isFirst
          have listed := isBlank_iff.mp blank
          simp only [List.mem_cons, isFeed] at listed ⊢
          simpa using listed
        exact absurd isIgnored (unmatched .ignored _ begins)

/-- The text that is refused: an open quotation up to the end of its line, and otherwise one
    character. -/
theorem refused_eq (rest : List Char) :
    refused rest =
      if rest.head? = some '"' then rest.takeWhile (· ≠ '\n') else rest.take 1 := by
  unfold refused
  split
  next rest => simp
  next noQuote =>
    cases rest with
    | nil => rfl
    | cons first rest =>
        have different : first ≠ '"' := by
          rintro rfl
          exact noQuote rest rfl
        simp [different]

/-- Some rule matches the text, or would if it were continued. -/
def Extensible (text : List Char) : Prop :=
  ∃ kind further, Matches kind (text ++ further)

/-- What is refused of a text that no rule matches: as much of it as some rule could continue, and at
    least one character. -/
structure Refused (text part : List Char) : Prop where
  begins : part <+: text
  nonempty : part ≠ []
  extensible : Extensible part ∨ part.length = 1
  longest : ∀ other, other <+: text → Extensible other → other.length ≤ part.length

/-- Only one part of a text is refused. -/
theorem Refused.unique {text part other : List Char} (isPart : Refused text part)
    (isOther : Refused text other) : part = other := by
  have atMost {first second : List Char} (isFirst : Refused text first)
      (isSecond : Refused text second) : first.length ≤ second.length := by
    rcases isFirst.extensible with goesOn | single
    · exact isSecond.longest first isFirst.begins goesOn
    · have := List.length_pos_iff.mpr isSecond.nonempty
      omega
  have begins := List.prefix_of_prefix_length_le isPart.begins isOther.begins (atMost isPart isOther)
  exact begins.eq_of_length (Nat.le_antisymm (atMost isPart isOther) (atMost isOther isPart))

/-- Where no rule matches there is a quote, or a character that can only begin a symbol. -/
theorem Unmatched.initial {first : Char} {rest : List Char} (unmatched : Unmatched (first :: rest))
    (noQuote : first ≠ '"') : Initial.ofChar first = .mark := by
  have begins : [first] <+: first :: rest := List.cons_prefix_cons.mpr ⟨rfl, List.nil_prefix⟩
  have noStart : isWordStart first = false := by
    rw [← Bool.not_eq_true]
    intro isStart
    exact unmatched .identifier _ begins (.identifier (by simpa [isWordStart] using isStart) (by simp))
  have noDigit : first.isDigit = false := by
    rw [← Bool.not_eq_true]
    intro isDigit
    exact unmatched .number _ begins (.number (by simp) (by simpa using isDigit))
  simp [Initial.ofChar, noStart, noDigit, noQuote, unmatched.not_blank]

/-- A symbol has two characters at most, so one that is not there has no more than its first one. -/
theorem Unmatched.symbol_bound {first : Char} {rest part : List Char}
    (unmatched : Unmatched (first :: rest)) (isMark : Initial.ofChar first = .mark)
    (begins : part <+: first :: rest) (goesOn : Extensible part) : part.length ≤ 1 := by
  obtain ⟨kind, further, matched⟩ := goesOn
  rcases List.prefix_cons_iff.mp begins with rfl | ⟨others, rfl, _⟩
  · simp
  · have short : ∀ kind ∈ Kind.all, kind.initial = .mark →
        ∀ spelling ∈ kind.spelling?, spelling.toList.length ≤ 2 := by
      decide
    have markKind := matched.initial.symm.trans isMark
    obtain ⟨spelling, isSpelling, whole⟩ := matched.symbol markKind
    have bound := short kind kind.mem_all markKind spelling isSpelling
    rw [← whole] at bound
    simp only [List.cons_append, List.length_cons, List.length_append] at bound ⊢
    apply Nat.le_of_not_lt
    intro longer
    have ended : further = [] := List.length_eq_zero_iff.mp (by omega)
    rw [ended, List.append_nil] at matched
    exact unmatched kind _ begins matched

/-- Without a closing quote, a quotation is open to the end of its line. -/
theorem takeWhile_isQuotable {rest : List Char}
    (isOpen : ∀ further, rest.dropWhile isQuotable ≠ '"' :: further) :
    rest.takeWhile isQuotable = rest.takeWhile (· ≠ '\n') := by
  induction rest with
  | nil => rfl
  | cons c rest ih =>
      by_cases isFeed : c = '\n'
      · simp [isFeed, isQuotable]
      · by_cases isQuote : c = '"'
        · subst isQuote
          exact absurd rfl (isOpen rest)
        · have quotable : isQuotable c := by simp [isQuotable, isFeed, isQuote]
          have others := ih (by simpa [List.dropWhile_cons, quotable] using isOpen)
          simp [quotable, isFeed, others]

/-- A quotation that is not closed could be continued up to the end of its line. -/
theorem Unmatched.quotation_refused {rest : List Char} (unmatched : Unmatched ('"' :: rest)) :
    Refused ('"' :: rest) ('"' :: rest.takeWhile (· ≠ '\n')) := by
  have isOpen : ∀ further, rest.dropWhile isQuotable ≠ '"' :: further := by
    intro further atQuote
    have found : quotation? rest = some (.quoted, (rest.takeWhile isQuotable).length + 2) := by
      simp [quotation?, drop_takeWhile, atQuote]
    obtain ⟨lexeme, _, longest⟩ := quotation?_longest found
    exact unmatched .quoted lexeme longest.begins longest.matched
  rw [← takeWhile_isQuotable isOpen]
  refine ⟨List.cons_prefix_cons.mpr ⟨rfl, List.takeWhile_prefix _⟩, by simp, .inl ?_, ?_⟩
  · refine ⟨.quoted, ['"'], .quoted ?_⟩
    intro c isMember
    simpa [isQuotable] using of_mem_takeWhile isMember
  · intro other begins goesOn
    obtain ⟨kind, further, matched⟩ := goesOn
    rcases List.prefix_cons_iff.mp begins with rfl | ⟨others, rfl, inside⟩
    · simp
    · obtain ⟨_, body, whole, areQuotable⟩ := matched.quotation matched.initial.symm
      -- The continued quotation has its closing quote behind this part: here there is none.
      have cut : others <+: body ++ ['"'] := ⟨further, by simpa using whole⟩
      rcases List.prefix_concat_iff.mp cut with closed | isBody
      · rw [closed] at begins
        exact absurd (.quoted (by simpa [isQuotable] using areQuotable))
          (unmatched .quoted _ begins)
      · have bound := length_le_takeWhile inside fun c isMember =>
          areQuotable c (isBody.subset isMember)
        simpa using bound

/-- The scanner refuses what is to be refused. -/
theorem Unmatched.refused {text : List Char} (unmatched : Unmatched text) (nonempty : text ≠ []) :
    Refused text (refused text) := by
  cases text with
  | nil => exact absurd rfl nonempty
  | cons first rest =>
      by_cases isQuote : first = '"'
      · subst isQuote
        exact unmatched.quotation_refused
      · have single : Token.refused (first :: rest) = [first] := by
          rw [refused_eq, List.head?_cons, if_neg (by simpa using isQuote)]
          rfl
        rw [single]
        refine ⟨List.cons_prefix_cons.mpr ⟨rfl, List.nil_prefix⟩, by simp, .inr rfl, ?_⟩
        intro other begins goesOn
        exact unmatched.symbol_bound (unmatched.initial isQuote) begins goesOn

theorem lexeme?_of_longest {kind : Kind} {lexeme rest : List Char} {first : Char}
    (notBlank : isBlank first = false) (longest : Longest kind lexeme (first :: rest)) :
    lexeme? (first :: rest) = some (kind, lexeme.length) := by
  cases taken : lexeme? (first :: rest) with
  | none =>
      exact absurd longest.matched (lexeme?_none notBlank taken kind lexeme longest.begins)
  | some found =>
      obtain ⟨other, length⟩ := found
      obtain ⟨otherLexeme, rfl, otherLongest⟩ := lexeme?_longest notBlank taken
      obtain ⟨rfl, rfl⟩ := longest.unique otherLongest
      rfl

theorem ne_feed_of_not_blank {c : Char} (notBlank : isBlank c = false) : c ≠ '\n' := by
  rintro rfl
  cases notBlank

theorem scan_blank (before rest : List Char) {c : Char} (blank : isBlank c) :
    scan (Cursor.behind before) 0 (c :: rest) = scan (Cursor.behind (before ++ [c])) 0 rest := by
  by_cases isFeed : c = '\n'
  · subst isFeed
    rw [scan, if_pos rfl, Cursor.behind_newLine]
  · rw [scan, if_neg isFeed, if_pos blank, Cursor.behind_pass before isFeed]

theorem scan_token (before : List Char) {lexeme rest : List Char} {kind : Kind}
    (longest : Longest kind lexeme (lexeme ++ rest)) (notFeed : kind ≠ .newLine)
    (notIgnored : kind ≠ .ignored) :
    scan (Cursor.behind before) 0 (lexeme ++ rest) =
      (scan (Cursor.behind (before ++ lexeme)) 0 rest).map
        ({ Position.behind before with kind, lexeme := String.ofList lexeme } :: ·) := by
  cases lexeme with
  | nil => exact absurd rfl longest.matched.ne_nil
  | cons first others =>
      have notBlank : isBlank first = false := by
        simp [← Bool.not_eq_true, longest.matched.isBlank_iff_layout, notFeed, notIgnored]
      have found : lexeme? (first :: (others ++ rest)) = some (kind, others.length + 1) :=
        lexeme?_of_longest notBlank longest
      have onLine : '\n' ∉ first :: others :=
        longest.matched.no_feed (by simp [Kind.initial_eq_blank_iff, notFeed, notIgnored])
      rw [List.mem_cons, not_or] at onLine
      have skipped := scan_skip (before ++ [first]) (others ++ rest) others.length (by simp)
        (by simpa using onLine.2)
      simp only [List.take_left, List.drop_left, List.append_assoc,
        List.singleton_append] at skipped
      have firstOnLine := ne_feed_of_not_blank notBlank
      rw [List.cons_append]
      simp only [scan, firstOnLine, notBlank, Bool.false_eq_true, if_false, found,
        Cursor.behind_position, Cursor.behind_pass before firstOnLine, Nat.add_sub_cancel, skipped,
        List.take_succ_cons, List.take_left]
      cases scan (Cursor.behind (before ++ first :: others)) 0 rest with
      | error error => rfl
      | ok tokens => rfl

theorem scan_unmatched (before : List Char) {rest : List Char} (nonempty : rest ≠ [])
    (unmatched : Unmatched rest) :
    scan (Cursor.behind before) 0 rest =
      .error { Position.behind before with text := String.ofList (refused rest) } := by
  cases rest with
  | nil => exact absurd rfl nonempty
  | cons first rest =>
      have notBlank := unmatched.not_blank
      cases taken : lexeme? (first :: rest) with
      | none =>
          simp [scan, ne_feed_of_not_blank notBlank, notBlank, taken, Cursor.behind_position]
      | some found =>
          obtain ⟨lexeme, _, longest⟩ := lexeme?_longest notBlank taken
          exact absurd longest.matched (unmatched _ lexeme longest.begins)

end Token

/-- The scanner gives what has been read, and goes on with the rest. -/
theorem Lexed.scan_eq {before rest : List Char} {tokens : List Token}
    (lexed : Lexed before tokens rest) :
    Token.scan {} 0 (before ++ rest) =
      (Token.scan (Token.Cursor.behind before) 0 rest).map (tokens ++ ·) := by
  induction lexed with
  | @start text =>
      show Token.scan (Token.Cursor.behind []) 0 text = _
      cases Token.scan (Token.Cursor.behind []) 0 text with
      | error error => rfl
      | ok tokens => rfl
  | @blank before rest tokens c lexed isBlank ih =>
      rw [List.append_assoc, List.singleton_append, ih,
        Token.scan_blank before rest (Token.isBlank_iff.mpr isBlank)]
  | @token before lexeme rest tokens kind lexed longest notFeed notIgnored ih =>
      rw [List.append_assoc, ih, Token.scan_token before longest notFeed notIgnored]
      cases Token.scan (Token.Cursor.behind (before ++ lexeme)) 0 rest with
      | error error => rfl
      | ok further => simp [Except.map]

/-- Reading goes on to the end of the text, or to a place where no rule matches. -/
theorem Lexed.continues {before rest : List Char} {tokens : List Token}
    (lexed : Lexed before tokens rest) :
    (∃ all, Lexed (before ++ rest) all []) ∨
      ∃ known found further, before ++ rest = known ++ further ∧ Lexed known found further ∧
        further ≠ [] ∧ Token.Unmatched further := by
  -- Every step takes a character, so what remains gets shorter.
  generalize size : rest.length = n
  induction n using Nat.strongRecOn generalizing before rest tokens with
  | ind n ih =>
      cases rest with
      | nil =>
          rw [List.append_nil]
          exact .inl ⟨tokens, lexed⟩
      | cons first rest =>
          cases blank : Token.isBlank first with
          | true =>
              have next := ih rest.length (by simp [← size])
                (lexed.blank (Token.isBlank_iff.mp blank)) rfl
              rwa [List.append_assoc] at next
          | false =>
              cases taken : Token.lexeme? (first :: rest) with
              | none =>
                  exact .inr ⟨before, tokens, first :: rest, rfl, lexed, by simp,
                    Token.lexeme?_none blank taken⟩
              | some found =>
                  obtain ⟨kind, length⟩ := found
                  obtain ⟨lexeme, rfl, longest⟩ := Token.lexeme?_longest blank taken
                  obtain ⟨others, rfl, ⟨beyond, rfl⟩, _⟩ := longest.matched.at_head longest.begins
                  have notLayout : ¬ (kind = .newLine ∨ kind = .ignored) := by
                    rw [← longest.matched.isBlank_iff_layout, blank]
                    decide
                  rw [not_or] at notLayout
                  have shorter : beyond.length < n := by
                    rw [← size]
                    simp only [List.length_cons, List.length_append]
                    omega
                  have next := ih beyond.length shorter
                    (lexed.token longest notLayout.1 notLayout.2) rfl
                  rwa [List.append_assoc] at next

theorem tokenize_of_lexed {source : String} {tokens : List Token}
    (lexed : Lexed source.toList tokens []) : tokenize source = .ok tokens := by
  have run := lexed.scan_eq
  rw [List.append_nil] at run
  rw [tokenize, run]
  simp [Token.scan, Except.map]

theorem tokenize_of_unmatched {source : String} {before rest : List Char} {tokens : List Token}
    (whole : source.toList = before ++ rest) (lexed : Lexed before tokens rest)
    (nonempty : rest ≠ []) (unmatched : Token.Unmatched rest) :
    tokenize source =
      .error { Position.behind before with text := String.ofList (Token.refused rest) } := by
  rw [tokenize, whole, lexed.scan_eq, Token.scan_unmatched before nonempty unmatched]
  rfl

theorem Lexed.tokenize_before {before rest : List Char} {tokens : List Token}
    (lexed : Lexed before tokens rest) : tokenize (String.ofList before) = .ok tokens := by
  refine tokenize_of_lexed ?_
  rw [String.toList_ofList]
  exact lexed.cut List.nil_prefix

theorem tokenize_cases (source : String) :
    (∃ tokens, Lexed source.toList tokens [] ∧ tokenize source = .ok tokens) ∨
      ∃ before tokens rest, source.toList = before ++ rest ∧ Lexed before tokens rest ∧
        rest ≠ [] ∧ Token.Unmatched rest ∧
        tokenize source =
          .error { Position.behind before with text := String.ofList (Token.refused rest) } := by
  have reading : Lexed [] [] source.toList := .start
  rcases reading.continues with ⟨tokens, lexed⟩ |
    ⟨before, tokens, rest, whole, lexed, nonempty, unmatched⟩
  · exact .inl ⟨tokens, lexed, tokenize_of_lexed lexed⟩
  · exact .inr ⟨before, tokens, rest, whole, lexed, nonempty, unmatched,
      tokenize_of_unmatched whole lexed nonempty unmatched⟩

theorem Lexed.of_tokenize {source : String} {tokens : List Token}
    (scanned : tokenize source = .ok tokens) : Lexed source.toList tokens [] := by
  rcases tokenize_cases source with ⟨all, lexed, run⟩ | ⟨_, _, _, _, _, _, _, run⟩
  · rw [scanned] at run
    cases run
    exact lexed
  · rw [scanned] at run
    cases run

/-- A source is read to its end as its lexemes, or else up to a first place where no rule matches.
    What stands before that place is read without error. -/
theorem scanner_reads_exactly_the_lexemes (source : String) :
    (∀ tokens, tokenize source = .ok tokens ↔ Lexed source.toList tokens []) ∧
      ∀ error, tokenize source = .error error ↔
        ∃ before tokens rest, source.toList = before ++ rest ∧ Lexed before tokens rest ∧
          rest ≠ [] ∧ Token.Unmatched rest ∧ error.toPosition = Position.behind before ∧
          Token.Refused rest error.text.toList ∧
          error.text.toList =
            (if rest.head? = some '"' then rest.takeWhile (· ≠ '\n') else rest.take 1) ∧
          tokenize (String.ofList before) = .ok tokens := by
  constructor
  · intro tokens
    constructor
    · intro succeeds
      rcases tokenize_cases source with ⟨all, lexed, run⟩ | ⟨_, _, _, _, _, _, _, run⟩
      · rw [succeeds] at run
        cases run
        exact lexed
      · rw [succeeds] at run
        cases run
    · exact tokenize_of_lexed
  · intro error
    constructor
    · intro fails
      rcases tokenize_cases source with ⟨_, _, run⟩ |
        ⟨before, tokens, rest, whole, lexed, nonempty, unmatched, run⟩
      · rw [fails] at run
        cases run
      · rw [fails] at run
        cases run
        refine ⟨before, tokens, rest, whole, lexed, nonempty, unmatched, rfl, ?_, ?_,
          lexed.tokenize_before⟩
        · rw [String.toList_ofList]
          exact unmatched.refused nonempty
        · rw [String.toList_ofList, Token.refused_eq]
    · rintro ⟨before, tokens, rest, whole, lexed, nonempty, unmatched, atPlace, isRefused, _⟩
      rw [tokenize_of_unmatched whole lexed nonempty unmatched,
        (unmatched.refused nonempty).unique isRefused, ← atPlace, String.ofList_toList]

example : tokenize "while1\n \"a" = .error { line := 2, column := 2, text := "\"a" } := by rfl

end TinyImp
