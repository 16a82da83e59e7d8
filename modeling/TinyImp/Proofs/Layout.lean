import TinyImp.Proofs.Backends
import TinyImp.Proofs.ParserLines
import TinyImp.Proofs.Scanning

/-! # Layout has no influence

The kinds and spellings of the tokens determine everything but lines: the tree, the symbols, the
code, and each step of a walk. So sources that differ only in the blanks between the same tokens
have the same code.
-/

namespace TinyImp

theorem Token.parallel_of_content {tokens others : List Token}
    (same : tokens.map Token.content = others.map Token.content) :
    List.Forall₂ (Token.Parallel anyLines) tokens others := by
  rw [← List.forall₂_eq_eq_eq, List.forall₂_map_left_iff, List.forall₂_map_right_iff] at same
  refine same.imp fun token other alike => ?_
  obtain ⟨kind, lexeme⟩ := Prod.mk.inj alike
  exact ⟨kind, lexeme, trivial⟩

theorem SyntaxError.settle_fault (tokens : List Token) (error : SyntaxError) :
    (error.settle tokens).fault = error.fault := by
  unfold SyntaxError.settle
  split <;> rfl

/-- The code of a source that has tokens. -/
theorem compile_code_eq {source : String} {tokens : List Token}
    (scanned : tokenize source = .ok tokens) :
    (compile source).toOption.map (·.code) =
      (Program.ofTokens tokens).toOption.bind fun program =>
        program.check.toOption.map fun _ => program.lower.code := by
  rw [compile_eq, check_eq, scanned]
  cases parsed : Program.ofTokens tokens with
  | error error => simp [parsed, Except.mapError, bind, Except.bind, Except.map, Except.toOption]
  | ok program =>
      cases checked : program.check <;>
        simp [parsed, checked, Except.mapError, bind, Except.bind, pure, Except.pure, Except.map,
          Except.toOption]

theorem Block.Parallel.lower_program {lines : Nat → Nat → Prop} {program other : Program}
    (parallel : Block.Parallel lines program other) : program.lower = other.lower := by
  simp only [Program.lower, Draft.program, Block.Parallel.lower parallel]

/-- Two token lists of equal kinds and spellings are parsed to trees that are equal up to their
    lines, or refused for the same fault. The trees pass the scope check with the same symbols or
    violate it in the same way, they have the same code, and walks over them from any store show the
    same events after any number of steps, end alike, and hold the same variables. Two sources with
    such tokens have the same code, if they have any. -/
theorem layout_has_no_influence :
    (∀ tokens others : List Token, tokens.map Token.content = others.map Token.content →
      ((Program.ofTokens tokens).map Block.eraseLines).mapError (·.fault) =
        ((Program.ofTokens others).map Block.eraseLines).mapError (·.fault) ∧
      ∀ program other : Program,
        Program.ofTokens tokens = .ok program → Program.ofTokens others = .ok other →
        program.check.mapError (·.fault) = other.check.mapError (·.fault) ∧
        program.lower = other.lower ∧
        ∀ (store : Store) (steps : Nat),
          let run := (Engine.ofStatements store program).run steps
          let otherRun := (Engine.ofStatements store other).run steps
          run.events = otherRun.events ∧ run.status.ending? = otherRun.status.ending? ∧
            run.state.store = otherRun.state.store) ∧
    (∀ (source other : String) (tokens others : List Token),
      tokenize source = .ok tokens → tokenize other = .ok others →
      tokens.map Token.content = others.map Token.content →
      (compile source).toOption.map (·.code) = (compile other).toOption.map (·.code)) := by
  constructor
  · intro tokens others same
    rcases Program.ofTokens_parallel (Token.parallel_of_content same) with
      ⟨program, other, parsed, parsedOther, parallel⟩ | ⟨error, error', failed, failedOther, errors⟩
    · rw [parsed, parsedOther]
      refine ⟨congrArg Except.ok parallel.eraseLines, ?_⟩
      rintro _ _ ⟨⟩ ⟨⟩
      refine ⟨(parallel.check {}).eq_of_fault, parallel.lower_program, fun store steps => ?_⟩
      have runs := parallel.run store steps
      exact ⟨runs.events, runs.status.ending, runs.state.store⟩
    · rw [failed, failedOther]
      refine ⟨congrArg Except.error ?_, by rintro _ _ ⟨⟩⟩
      show (error.settle tokens).fault = (error'.settle others).fault
      rw [SyntaxError.settle_fault, SyntaxError.settle_fault, errors.fault]
  · intro source other tokens others scanned scannedOther same
    rw [compile_code_eq scanned, compile_code_eq scannedOther]
    rcases Program.ofTokens_parallel (Token.parallel_of_content same) with
      ⟨program, other, parsed, parsedOther, parallel⟩ | ⟨error, error', failed, failedOther, errors⟩
    · have checked : program.check.toOption = other.check.toOption := (parallel.check {}).toOption
      rw [parsed, parsedOther]
      show program.check.toOption.map (fun _ => program.lower.code) =
        other.check.toOption.map (fun _ => other.lower.code)
      rw [checked, parallel.lower_program]
    · rw [failed, failedOther]
      rfl

/-- One program on one line and on two. The walk fails on another line, but in the same way. -/
theorem spread_out_quotient_is_the_same :
    let tokens : List Token :=
      [⟨⟨1, 1⟩, .printWord, "print"⟩, ⟨⟨1, 6⟩, .leftParen, "("⟩, ⟨⟨1, 7⟩, .number, "1"⟩,
        ⟨⟨1, 8⟩, .slash, "/"⟩, ⟨⟨1, 9⟩, .number, "0"⟩, ⟨⟨1, 10⟩, .rightParen, ")"⟩,
        ⟨⟨1, 11⟩, .semicolon, ";"⟩]
    let others : List Token :=
      [⟨⟨1, 1⟩, .printWord, "print"⟩, ⟨⟨1, 7⟩, .leftParen, "("⟩, ⟨⟨1, 8⟩, .number, "1"⟩,
        ⟨⟨2, 1⟩, .slash, "/"⟩, ⟨⟨2, 3⟩, .number, "0"⟩, ⟨⟨2, 4⟩, .rightParen, ")"⟩,
        ⟨⟨2, 6⟩, .semicolon, ";"⟩]
    let program : Program := [.print (.binary .div (.const 1 1) (.const 0 1) 1) 1]
    let other : Program := [.print (.binary .div (.const 1 1) (.const 0 2) 2) 1]
    tokenize "print(1/0);" = .ok tokens ∧ tokenize "print (1\n/ 0) ;" = .ok others ∧
      Program.ofTokens tokens = .ok program ∧ Program.ofTokens others = .ok other ∧
      program.lower = other.lower ∧
      (compile "print(1/0);").toOption.map (·.code) =
        (compile "print (1\n/ 0) ;").toOption.map (·.code) := by
  intro tokens others program other
  have scanned : tokenize "print(1/0);" = .ok tokens := rfl
  have scannedOther : tokenize "print (1\n/ 0) ;" = .ok others := rfl
  have parsed : Program.ofTokens tokens = .ok program := rfl
  have parsedOther : Program.ofTokens others = .ok other := rfl
  have same : tokens.map Token.content = others.map Token.content := rfl
  obtain ⟨_, further⟩ := layout_has_no_influence.1 tokens others same
  exact ⟨scanned, scannedOther, parsed, parsedOther, (further program other parsed parsedOther).2.1,
    layout_has_no_influence.2 _ _ tokens others scanned scannedOther same⟩

end TinyImp
