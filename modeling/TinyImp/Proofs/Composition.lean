import TinyImp.Proofs.ExprAt
import TinyImp.Proofs.Parsing

/-! # Programs can be put together

A statement ends with a semicolon or a closing brace, and what stands behind it has no say in how it
is read, except that a choice goes on where an `else` follows. So the parser reads the tokens of a
program alike whatever else follows them, and then goes on as it would with the others alone. The line
on which the input ends is that of the last token, for which the tokens in front do not matter either.
-/

namespace TinyImp

open TinyImp.Parser
open Statement (NoElse)

namespace Program

/-- One statement, and what follows it. -/
theorem parser_of_statement {tokens rest : List Token} {first : Statement}
    (parsed : Statement.parser (roomAt 0) tokens = .ok first rest) :
    Program.parser tokens = (do return first :: (← Program.parser)) rest := by
  have shrinks := Block.shrinks_of_reads (Statement.parser_reads 0) fun _ _ _ =>
    furtherStatement_eq_ok_some_iff
  have round := furtherStatement_eq_ok_some_iff.mpr parsed
  exact (congrFun (many_eq shrinks) tokens).trans (bind_of_ok round)

/-- Behind a row of statements the parser goes on as it would from the start. -/
theorem parser_append {used rest : List Token} {program : Program}
    (row : Program.Phrase .standard used program) (noElse : NoElse rest) :
    Program.parser (used ++ rest) = (do return program ++ (← Program.parser)) rest := by
  induction program generalizing used with
  | nil =>
      cases row
      cases parsed : Program.parser rest with
      | ok others left => rw [bind_of_ok parsed, List.nil_append, parsed]; rfl
      | error error left => rw [bind_of_error parsed, List.nil_append, parsed]
  | cons first program ih =>
      cases row with
      | @cons _ usedFirst used _ _ phrase row =>
          have stops := Block.Row.noElse row noElse
          rw [List.append_assoc, parser_of_statement ((Statement.parser_reads 0).complete phrase stops)]
          have behind := ih row
          cases parsed : Program.parser rest with
          | ok others left =>
              rw [bind_of_ok parsed] at behind
              rw [bind_of_ok parsed, bind_of_ok behind]
              rfl
          | error error left =>
              rw [bind_of_error parsed] at behind
              rw [bind_of_error parsed, bind_of_error behind]

/-- Tokens in front of a list that is refused do not change the line on which it ends. -/
theorem settle_append {tokens more left : List Token} {error : SyntaxError}
    (failed : Program.parser more = .error error left) :
    error.settle (tokens ++ more) = error.settle more := by
  have nonempty : more ≠ [] := by
    intro isEmpty
    subst isEmpty
    cases failed
  exact SyntaxError.settle_congr (endLine_append nonempty tokens) error

theorem ofTokens_append {tokens more : List Token} {program : Program}
    (accepted : ofTokens tokens = .ok program) (noElse : NoElse more) :
    ofTokens (tokens ++ more) = (ofTokens more).map (program ++ ·) := by
  have whole := parser_append (ofTokens_eq_ok_iff.mp accepted) noElse
  unfold ofTokens
  cases parsed : Program.parser more with
  | ok further left =>
      rw [whole, bind_of_ok parsed]
      rfl
  | error error left =>
      rw [whole, bind_of_error parsed]
      exact congrArg Except.error (settle_append parsed)

end Program

/-- If the tokens of a program are followed by others, the first of which is no `else`, then the
    statements of the others follow those of the program, or the error of the others is reported, on
    the same line. -/
theorem program_parsing_composes {tokens more : List Token} {program : Program}
    (accepted : Program.ofTokens tokens = .ok program) (noElse : NoElse more) :
    (∀ further, Program.ofTokens more = .ok further →
      Program.ofTokens (tokens ++ more) = .ok (program ++ further)) ∧
    (∀ error, Program.ofTokens more = .error error →
      Program.ofTokens (tokens ++ more) = .error error) := by
  have joined := Program.ofTokens_append accepted noElse
  constructor
  · intro further parsed
    rw [joined, parsed]
    rfl
  · intro error refused
    rw [joined, refused]
    rfl

/-- Behind the choice `if (x) {}` stand an assignment, and an assignment that is cut short. -/
theorem assignments_behind_a_choice :
    let choice : List Token :=
      [⟨⟨1, 1⟩, .ifWord, "if"⟩, ⟨⟨1, 4⟩, .leftParen, "("⟩, ⟨⟨1, 5⟩, .identifier, "x"⟩,
        ⟨⟨1, 6⟩, .rightParen, ")"⟩, ⟨⟨1, 8⟩, .leftBrace, "\x7b"⟩, ⟨⟨1, 9⟩, .rightBrace, "\x7d"⟩]
    let start : List Token := [⟨⟨2, 1⟩, .identifier, "y"⟩, ⟨⟨3, 1⟩, .equals, "="⟩]
    let ending : List Token := [⟨⟨3, 3⟩, .number, "1"⟩, ⟨⟨3, 4⟩, .semicolon, ";"⟩]
    Program.ofTokens choice = .ok [.branch (.var "x" 1) [] [] 1] ∧
    Program.ofTokens (choice ++ (start ++ ending)) =
      .ok [.branch (.var "x" 1) [] [] 1, .assign "y" (.const 1 3) 2] ∧
    Program.ofTokens (choice ++ start) = .error { fault := .unexpectedEnd, line := 3 } := by
  intro choice start ending
  have accepted : Program.ofTokens choice = .ok [.branch (.var "x" 1) [] [] 1] := rfl
  have noElse (rest : List Token) : NoElse (start ++ rest) := by
    intro token isNext
    cases isNext
    nofun
  have whole : Program.ofTokens (start ++ ending) = .ok [.assign "y" (.const 1 3) 2] := rfl
  have cut : Program.ofTokens start = .error { fault := .unexpectedEnd, line := 3 } := rfl
  exact ⟨accepted, (program_parsing_composes accepted (noElse ending)).1 _ whole,
    (program_parsing_composes accepted (noElse [])).2 _ cut⟩

end TinyImp
