import TinyImp.Proofs.Spelling

/-! # Lexemes with blanks between them

Only layout goes on with a blank. So a lexeme that was taken from a source is also taken where a blank
follows it, whatever followed it in the source, and the lexemes of a source with one blank between
each two of them are scanned to the same kinds and lexemes again.
-/

namespace TinyImp

namespace Token

/-- A quotation ends at its second quote, whatever follows. -/
theorem separate_of_quote {kind : Kind} {lexeme : List Char} (matched : Matches kind lexeme)
    (isQuote : kind.initial = .quote) (rest : List Char) : Separate lexeme rest := by
  intro c _ other longer matchedLonger begins
  obtain ⟨_, body, rfl, _⟩ := matched.quotation isQuote
  obtain ⟨further, rfl⟩ := begins
  -- Both begin the same text, in which only one quotation can.
  have begins : '"' :: body ++ ['"'] <+: '"' :: (body ++ '"' :: c :: further) :=
    ⟨c :: further, by simp⟩
  have beginsLonger : '"' :: body ++ ['"'] ++ [c] ++ further <+:
      '"' :: (body ++ '"' :: c :: further) := by simp
  have same := (matched.quotation_eq begins).2.1.trans
    (matchedLonger.quotation_eq beginsLonger).2.1.symm
  simp at same

/-- At the end of the text, or where a blank follows. -/
def Apart (rest : List Char) : Prop :=
  ∀ c ∈ rest.head?, c = ' '

theorem Matches.separate {kind : Kind} {lexeme rest : List Char} (matched : Matches kind lexeme)
    (notLayout : kind.initial ≠ .blank) (apart : Apart rest) : Separate lexeme rest := by
  cases lexeme with
  | nil => exact absurd rfl matched.ne_nil
  | cons first others =>
      have initial := matched.initial
      cases isClass : kind.initial with
      | letter =>
          apply separate_of_letter (initial.trans isClass)
          intro c isNext
          rw [apart c isNext]
          rfl
      | digit =>
          apply separate_of_digit (initial.trans isClass)
          intro c isNext
          rw [apart c isNext]
          decide
      | quote => exact separate_of_quote matched isClass rest
      | blank => exact absurd isClass notLayout
      | mark =>
          apply separate_of_mark (initial.trans isClass)
          intro c isNext
          rw [apart c isNext]
          decide

end Token

theorem Lexed.notLayout {before rest : List Char} {tokens : List Token}
    (lexed : Lexed before tokens rest) : ∀ token ∈ tokens, token.kind.initial ≠ .blank := by
  induction lexed with
  | start => simp
  | blank _ _ ih => exact ih
  | token _ _ notFeed notIgnored ih =>
      intro token isMember
      rcases List.mem_append.mp isMember with earlier | isLast
      · exact ih token earlier
      · cases List.mem_singleton.mp isLast
        simp [Token.Kind.initial_eq_blank_iff, notFeed, notIgnored]

theorem Spells.intercalate {tokens : List Token}
    (wellSpelled : ∀ token ∈ tokens, token.WellSpelled)
    (notLayout : ∀ token ∈ tokens, token.kind.initial ≠ .blank) :
    Spells Token.Apart (String.intercalate " " (tokens.map (·.lexeme))).toList
      (tokens.map Token.content) := by
  induction tokens with
  | nil => exact .nil
  | cons token others ih =>
      obtain ⟨alone, wellSpelled⟩ := List.forall_mem_cons.mp wellSpelled
      obtain ⟨isWord, notLayout⟩ := List.forall_mem_cons.mp notLayout
      have first : Spells Token.Apart token.lexeme.toList [token.content] :=
        .lexeme alone isWord fun rest => alone.matched.separate isWord
      cases others with
      | nil => simpa using first
      | cons next others =>
          have blank : Spells (fun _ => True) [' '] [] := .blank (by simp)
          have further := blank.append (ih wellSpelled notLayout) fun _ _ => trivial
          have joined := first.append further fun rest _ c isNext => by simpa [eq_comm] using isNext
          simpa using joined

/-- Whatever is scanned can be written with single blanks between the lexemes, and is scanned to the
    same kinds and lexemes again. -/
theorem spaced_lexemes_scan_alike {source : String} {tokens : List Token}
    (scanned : tokenize source = .ok tokens) :
    ∃ others, tokenize (String.intercalate " " (tokens.map (·.lexeme))) = .ok others ∧
      others.map (·.kind) = tokens.map (·.kind) ∧
      others.map (·.lexeme) = tokens.map (·.lexeme) := by
  have lexed := Lexed.of_tokenize scanned
  have atEnd : Token.Apart [] := by
    intro c isNext
    cases isNext
  obtain ⟨others, scannedAgain, same⟩ :=
    (Spells.intercalate lexed.wellSpelled lexed.notLayout).tokenize atEnd
  have kinds := congrArg (List.map Prod.fst) same
  have lexemes := congrArg (List.map Prod.snd) same
  rw [List.map_map, List.map_map] at kinds lexemes
  exact ⟨others, scannedAgain, kinds, lexemes⟩

/-- Words, numerals and operators that touch, and a quotation with blanks in it. -/
theorem touching_lexemes_scan_alike :
    ∃ tokens others, tokenize "12ab<==\"a  b\"1.5!if" = .ok tokens ∧
      tokens.map (·.kind) =
        [.number, .identifier, .lessEqual, .equals, .quoted, .decimal, .bang, .ifWord] ∧
      tokenize "12 ab <= = \"a  b\" 1.5 ! if" = .ok others ∧
      others.map (·.kind) = tokens.map (·.kind) ∧
      others.map (·.lexeme) = tokens.map (·.lexeme) := by
  obtain ⟨tokens, scanned, kinds, lexemes⟩ : ∃ tokens,
      tokenize "12ab<==\"a  b\"1.5!if" = .ok tokens ∧
      tokens.map (·.kind) =
        [.number, .identifier, .lessEqual, .equals, .quoted, .decimal, .bang, .ifWord] ∧
      String.intercalate " " (tokens.map (·.lexeme)) = "12 ab <= = \"a  b\" 1.5 ! if" :=
    ⟨_, rfl, rfl, by decide⟩
  obtain ⟨others, scannedAgain, same⟩ := spaced_lexemes_scan_alike scanned
  rw [lexemes] at scannedAgain
  exact ⟨tokens, others, scanned, kinds, scannedAgain, same⟩

end TinyImp
