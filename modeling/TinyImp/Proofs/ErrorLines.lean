import TinyImp.Proofs.Backends
import TinyImp.Proofs.ParserLines
import TinyImp.Proofs.Scanning

/-! # Every reported line is real

The line of an error is a line of the source, and apart from lexical errors there is a token on it.
For this it is enough that lines pass through every stage, since they begin with the tokens. The
machine counts instructions instead of lines.
-/

namespace TinyImp

/-- The number of lines of a source. -/
def lineCount (source : String) : Nat :=
  source.toList.count '\n' + 1

/-- The line on which an error is reported. -/
def Error.line : Error → Nat
  | .lexical error => error.line
  | .syntactic error => error.line
  | .scope error => error.line
  | .runtime error => error.line

/-- The errors in which the work on a source can end: a stage refuses it, its code does not link, or
    its run fails after some number of steps. -/
inductive Fails (source : String) (backend : Backend) : Error → Prop where
  | refused {error : Error} :
      compile source = .error error →
      Fails source backend error
  | unlinked {compilation : Compilation} {error : RuntimeError} :
      compile source = .ok compilation →
      Engine.ofCompilation compilation backend = .error error →
      Fails source backend (.runtime error)
  | stopped {compilation : Compilation} {engine : Engine} {steps : Nat} {error : RuntimeError} :
      compile source = .ok compilation →
      Engine.ofCompilation compilation backend = .ok engine →
      (engine.run steps).status = .failed error →
      Fails source backend (.runtime error)

/-- Each of some lines corresponds to itself. -/
def sameLine (good : Nat → Prop) (left right : Nat) : Prop :=
  left = right ∧ good left

theorem Lexed.line_bounds {before rest : List Char} {tokens : List Token}
    (lexed : Lexed before tokens rest) :
    ∀ token ∈ tokens, 1 ≤ token.line ∧ token.line ≤ before.count '\n' + 1 := by
  induction lexed with
  | start => simp
  | blank _ _ ih =>
      intro token member
      have bounds := ih token member
      rw [List.count_append]
      omega
  | token _ _ _ _ ih =>
      intro token member
      rw [List.count_append]
      rcases List.mem_append.mp member with earlier | last
      · have bounds := ih token earlier
        omega
      · obtain rfl := List.mem_singleton.mp last
        simp only [Position.behind]
        omega

theorem tokenize_line_bounds {source : String} {tokens : List Token}
    (scanned : tokenize source = .ok tokens) :
    ∀ token ∈ tokens, 1 ≤ token.line ∧ token.line ≤ lineCount source :=
  (Lexed.of_tokenize scanned).line_bounds

theorem tokenize_error_line_bounds {source : String} {error : LexError}
    (failed : tokenize source = .error error) : 1 ≤ error.line ∧ error.line ≤ lineCount source := by
  rcases tokenize_cases source with ⟨_, _, run⟩ | ⟨before, _, rest, whole, _, _, _, run⟩
  · rw [failed] at run
    cases run
  · rw [failed] at run
    cases run
    simp only [Position.behind, lineCount, whole, List.count_append]
    omega

section Passing

variable {good : Nat → Prop} {tokens : List Token}

theorem Token.parallel_self (lines : ∀ token ∈ tokens, good token.line) :
    List.Forall₂ (Token.Parallel (sameLine good)) tokens tokens :=
  List.forall₂_same.mpr fun token member => ⟨rfl, rfl, rfl, lines token member⟩

theorem good_endLine (lines : ∀ token ∈ tokens, good token.line) (nonempty : tokens ≠ []) :
    good (endLine tokens) := by
  simp only [endLine, List.getLast?_eq_some_getLast nonempty]
  exact lines _ (List.getLast_mem nonempty)

/-- Where the line is unknown, the line of the end takes its place. -/
theorem SyntaxError.Parallel.settled {error error' : SyntaxError}
    (parallel : SyntaxError.Parallel (sameLine good) error error')
    (ending : good (endLine tokens)) : good (error.settle tokens).line := by
  cases parallel with
  | located related =>
      unfold SyntaxError.settle
      split
      · exact ending
      · exact ending
      · exact related.line.2
  | atEnd atEnd =>
      rcases atEnd with rfl | ⟨kind, rfl⟩
      · exact ending
      · exact ending

theorem Program.ofTokens_error_line (lines : ∀ token ∈ tokens, good token.line)
    {error : SyntaxError} (failed : ofTokens tokens = .error error) : good error.line := by
  have nonempty : tokens ≠ [] := by
    rintro rfl
    cases failed
  rcases Program.ofTokens_parallel (Token.parallel_self lines) with
    ⟨_, _, parsed, _⟩ | ⟨error, error', failed', _, parallel⟩
  · rw [failed] at parsed
    cases parsed
  · rw [failed] at failed'
    cases failed'
    exact parallel.settled (good_endLine lines nonempty)

theorem Expr.ofTokensAt_error_line (lines : ∀ token ∈ tokens, good token.line)
    (ending : good (endLine tokens)) {start : Nat} {error : SyntaxError}
    (failed : ofTokensAt tokens start = .error error) : good error.line := by
  have remaining : ∀ token ∈ tokens.drop start, good token.line :=
    fun token member => lines token (List.mem_of_mem_drop member)
  have ends := Expr.parser_agrees (roomAt 0) _ _ (Token.parallel_self remaining)
  unfold ofTokensAt at failed
  generalize Expr.parser (roomAt 0) (tokens.drop start) = result at ends failed
  cases ends with
  | ok => cases failed
  | error parallel =>
      cases failed
      exact parallel.settled ending

/-- A program has the lines of its tokens. -/
theorem Program.ofTokens_lines (lines : ∀ token ∈ tokens, good token.line) {program : Program}
    (parsed : ofTokens tokens = .ok program) : Block.Parallel (sameLine good) program program := by
  rcases Program.ofTokens_parallel (Token.parallel_self lines) with
    ⟨program, program', parsed', parsedAgain, parallel⟩ | ⟨_, _, failed, _, _⟩
  · rw [parsed] at parsed' parsedAgain
    cases parsed'
    cases parsedAgain
    exact parallel
  · rw [parsed] at failed
    cases failed

theorem Block.Parallel.check_error_line {program : Program} {error : ScopeError}
    (parallel : Block.Parallel (sameLine good) program program)
    (failed : program.check = .error error) : good error.line := by
  have outcomes := Block.Parallel.check parallel {}
  rw [Program.check] at failed
  rw [failed] at outcomes
  cases outcomes with
  | error related => exact related.line.2

theorem Block.Parallel.run_error_line {program : Program}
    (parallel : Block.Parallel (sameLine good) program program) {store : Store} {steps : Nat}
    {error : RuntimeError}
    (failed : ((Engine.ofStatements store program).run steps).status = .failed error) :
    good error.line := by
  have statuses := (parallel.run store steps).status
  rw [failed] at statuses
  cases statuses with
  | failed related => exact related.line.2

end Passing

theorem Execution.step_error_line {routine : Routine} {execution left : Execution}
    {error : RuntimeError} {event : Option Event}
    (failed : execution.step routine = .fail error event left) :
    1 ≤ error.line ∧ error.line ≤ routine.code.size := by
  obtain ⟨instruction, here, -, isLine⟩ := Execution.perform_of_fail failed
  have inside := (Array.getElem?_eq_some_iff.mp here).1
  omega

theorem Engine.code_error_line {routine : Routine} {execution : Execution} {steps : Nat}
    {error : RuntimeError}
    (failed : ((Engine.code routine execution).run steps).status = .failed error) :
    1 ≤ error.line ∧ error.line ≤ routine.code.size := by
  obtain ⟨before, -, -, fails, -⟩ := Engine.run_of_failed failed
  obtain ⟨execution', isCode⟩ := Engine.run_code routine execution before
  rw [isCode] at fails
  obtain ⟨left, fails, -⟩ := Step.map_eq_fail fails
  exact Execution.step_error_line fails

theorem Code.undefinedJump?_line {code : Code} {error : RuntimeError}
    (found : code.undefinedJump? = some error) : 1 ≤ error.line ∧ error.line ≤ code.length := by
  obtain ⟨⟨instruction, index⟩, member, located⟩ := List.exists_of_findSome?_eq_some found
  have inside := (List.getElem?_eq_some_iff.mp (List.mem_zipIdx_iff_getElem?.mp member)).1
  dsimp only at located
  split at located
  · split at located
    · cases located
    · cases located
      dsimp only
      omega
  · cases located

theorem Engine.ofCode_error_line {machine : Machine} {code : Code} {error : RuntimeError}
    (failed : Engine.ofCode machine code = .error error) :
    1 ≤ error.line ∧ error.line ≤ code.length := by
  cases found : code.undefinedJump? with
  | none =>
      rw [Engine.ofCode_of_defined found] at failed
      cases failed
  | some undefined =>
      rw [Engine.ofCode_of_undefined found] at failed
      cases failed
      exact Code.undefinedJump?_line found

theorem Engine.ofCode_ok {machine : Machine} {code : Code} {engine : Engine}
    (linked : Engine.ofCode machine code = .ok engine) :
    ∃ execution, engine = .code code.routine execution := by
  cases found : code.undefinedJump? with
  | none =>
      rw [Engine.ofCode_of_defined found] at linked
      cases linked
      exact ⟨_, rfl⟩
  | some undefined =>
      rw [Engine.ofCode_of_undefined found] at linked
      cases linked

/-- The errors of a check, by the stage that refuses the source. -/
theorem check_error_cases {source : String} {error : Error} (failed : check source = .error error) :
    (∃ refused, tokenize source = .error refused ∧ error = .lexical refused) ∨
    ∃ tokens, tokenize source = .ok tokens ∧
      ((∃ refused, Program.ofTokens tokens = .error refused ∧ error = .syntactic refused) ∨
        ∃ program, Program.ofTokens tokens = .ok program ∧
          ∃ refused, program.check = .error refused ∧ error = .scope refused) := by
  simpa only [check_eq, Except.bind_eq_error_iff, Except.mapError_eq_error_iff,
    Except.mapError_eq_ok_iff, pure, Except.pure, reduceCtorEq, and_false, exists_false,
    or_false] using failed

theorem check_ok_stages {source : String} {checked : Checked}
    (outcome : check source = .ok checked) :
    tokenize source = .ok checked.tokens ∧
      Program.ofTokens checked.tokens = .ok checked.program := by
  rw [check_eq] at outcome
  simp only [Except.bind_eq_ok_iff, Except.mapError_eq_ok_iff] at outcome
  obtain ⟨tokens, scanned, program, parsed, symbols, _, same⟩ := outcome
  cases same
  exact ⟨scanned, parsed⟩

/-- A check begins with parsing. -/
theorem parse_error_check {source : String} {error : Error} (failed : parse source = .error error) :
    check source = .error error := by
  simp only [parse_eq, Except.bind_eq_error_iff] at failed
  simp only [check_eq, Except.bind_eq_error_iff]
  rcases failed with refused | ⟨tokens, scanned, refused⟩
  · exact .inl refused
  · exact .inr ⟨tokens, scanned, .inl refused⟩

/-- The line is one of the source. -/
def OnLine (source : String) (line : Nat) : Prop :=
  1 ≤ line ∧ line ≤ lineCount source

/-- The line is that of a token of the source. -/
def OnToken (source : String) (line : Nat) : Prop :=
  ∃ tokens, tokenize source = .ok tokens ∧ ∃ token ∈ tokens, token.line = line

theorem OnToken.onLine {source : String} {line : Nat} (onToken : OnToken source line) :
    OnLine source line := by
  obtain ⟨tokens, scanned, token, member, rfl⟩ := onToken
  exact tokenize_line_bounds scanned token member

theorem onToken_of_mem {source : String} {tokens : List Token}
    (scanned : tokenize source = .ok tokens) : ∀ token ∈ tokens, OnToken source token.line :=
  fun token member => ⟨tokens, scanned, token, member, rfl⟩

theorem check_error_line {source : String} {error : Error} (failed : check source = .error error) :
    OnLine source error.line ∧
      ((∃ refused, error = .lexical refused) ∨ OnToken source error.line) := by
  rcases check_error_cases failed with ⟨refused, stopped, rfl⟩ | ⟨tokens, scanned, later⟩
  · exact ⟨tokenize_error_line_bounds stopped, .inl ⟨refused, rfl⟩⟩
  · have lines := onToken_of_mem scanned
    have onToken : OnToken source error.line := by
      rcases later with ⟨refused, stopped, rfl⟩ | ⟨program, parsed, refused, stopped, rfl⟩
      · exact Program.ofTokens_error_line lines stopped
      · exact (Program.ofTokens_lines lines parsed).check_error_line stopped
    exact ⟨onToken.onLine, .inr onToken⟩

theorem compile_error_check {source : String} {error : Error}
    (failed : compile source = .error error) : check source = .error error := by
  rw [compile_eq] at failed
  cases outcome : check source with
  | ok checked => simp [outcome, Except.map] at failed
  | error refused => simpa [outcome, Except.map] using failed

theorem compile_ok_check {source : String} {compilation : Compilation}
    (compiled : compile source = .ok compilation) :
    check source = .ok compilation.toChecked := by
  rw [compile_eq] at compiled
  cases outcome : check source with
  | error refused => simp [outcome, Except.map] at compiled
  | ok checked =>
      simp only [outcome, Except.map, Except.ok.injEq] at compiled
      subst compiled
      rfl

/-- Walking over a compiled program fails on the line of a token. -/
theorem Fails.tree_line {source : String} {error : Error} (fails : Fails source .tree error) :
    OnLine source error.line ∧
      ((∃ refused, error = .lexical refused) ∨ OnToken source error.line) := by
  cases fails with
  | refused failed => exact check_error_line (compile_error_check failed)
  | unlinked _ failed => cases failed
  | @stopped compilation _ _ error compiled started failed =>
      cases started
      obtain ⟨scanned, parsed⟩ := check_ok_stages (compile_ok_check compiled)
      have parallel := Program.ofTokens_lines (onToken_of_mem scanned) parsed
      have onToken : OnToken source error.line := parallel.run_error_line failed
      exact ⟨onToken.onLine, .inr onToken⟩

theorem Fails.code_line {source : String} {error : RuntimeError}
    (fails : Fails source .code (.runtime error)) :
    ∃ compilation, compile source = .ok compilation ∧ 1 ≤ error.line ∧
      error.line ≤ compilation.code.length := by
  cases fails with
  | refused failed =>
      rcases check_error_cases (compile_error_check failed) with
        ⟨_, _, impossible⟩ | ⟨_, _, ⟨_, _, impossible⟩ | ⟨_, _, _, _, impossible⟩⟩
      · cases impossible
      · cases impossible
      · cases impossible
  | unlinked compiled failed => exact ⟨_, compiled, Engine.ofCode_error_line failed⟩
  | stopped compiled linked failed =>
      obtain ⟨execution, rfl⟩ := Engine.ofCode_ok linked
      have bounds := Engine.code_error_line failed
      rw [Code.routine, List.size_toArray] at bounds
      exact ⟨_, compiled, bounds⟩

/-- Whatever error the scanner, the parser, the check or a walk reports, its line is one of the
    source, and if the error is not lexical it is the line of a token. The parsers of whole inputs
    never report the unknown line. A fault of the machine is reported on the number of one of the
    instructions. -/
theorem reported_lines_are_real (source : String) :
    (∀ error, tokenize source = .error error → OnLine source error.line) ∧
    (∀ error, parse source = .error error ∨ check source = .error error ∨
        Fails source .tree error →
      OnLine source error.line ∧
        ((∃ refused, error = .lexical refused) ∨ OnToken source error.line)) ∧
    (∀ tokens start error, tokenize source = .ok tokens →
      Program.ofTokens tokens = .error error ∨ Expr.ofTokensAt tokens start = .error error →
      OnLine source error.line) ∧
    (∀ error, Fails source .code (.runtime error) →
      ∃ compilation, compile source = .ok compilation ∧ 1 ≤ error.line ∧
        error.line ≤ compilation.code.length) := by
  refine ⟨fun _ => tokenize_error_line_bounds, ?_, ?_, fun _ => Fails.code_line⟩
  · intro error failed
    rcases failed with failed | failed | fails
    · exact check_error_line (parse_error_check failed)
    · exact check_error_line failed
    · exact fails.tree_line
  · intro tokens start error scanned failed
    have lines := tokenize_line_bounds scanned
    rcases failed with failed | failed
    · exact Program.ofTokens_error_line lines failed
    · apply Expr.ofTokensAt_error_line lines ?_ failed
      cases tokens with
      | nil => exact ⟨Nat.le_refl 1, Nat.le_add_left 1 _⟩
      | cons token others => exact good_endLine lines (List.cons_ne_nil token others)

/-- A character that begins no token, a source that ends too early, and a quotient by zero, which
    the walk reports on its line and the machine at its instruction. -/
theorem three_sources_with_real_lines :
    (tokenize "x\n$" = .error { line := 2, column := 1, text := "$" } ∧ OnLine "x\n$" 2) ∧
    (parse "\nprint" = .error (.syntactic { fault := .expected .leftParen none, line := 2 }) ∧
      OnLine "\nprint" 2) ∧
    (∃ compilation, compile "print(1\n/0);" = .ok compilation ∧
      Fails "print(1\n/0);" .tree (.runtime { fault := .divisionByZero, line := 2 }) ∧
      OnLine "print(1\n/0);" 2 ∧
      Fails "print(1\n/0);" .code (.runtime { fault := .divisionByZero, line := 1 }) ∧
      1 ≤ compilation.code.length) := by
  have refused : tokenize "x\n$" = .error { line := 2, column := 1, text := "$" } := rfl
  have early : tokenize "\nprint" = .ok [⟨⟨2, 1⟩, .printWord, "print"⟩] := rfl
  have parsed : parse "\nprint" =
      .error (.syntactic { fault := .expected .leftParen none, line := 2 }) := by
    rw [parse_eq, early]
    rfl
  let tokens : List Token :=
    [⟨⟨1, 1⟩, .printWord, "print"⟩, ⟨⟨1, 6⟩, .leftParen, "("⟩, ⟨⟨1, 7⟩, .number, "1"⟩,
      ⟨⟨2, 1⟩, .slash, "/"⟩, ⟨⟨2, 2⟩, .number, "0"⟩, ⟨⟨2, 3⟩, .rightParen, ")"⟩,
      ⟨⟨2, 4⟩, .semicolon, ";"⟩]
  let program : Program := [.print (.binary .div (.const 1 1) (.const 0 2) 2) 1]
  have scanned : tokenize "print(1\n/0);" = .ok tokens := rfl
  have accepted : Program.ofTokens tokens = .ok program := rfl
  have compiled : compile "print(1\n/0);" =
      .ok { tokens, program, symbols := {}, code := program.lower.code } := by
    rw [compile_eq, check_eq, scanned]
    simp only [Except.mapError, bind, Except.bind, accepted]
    rfl
  have walk : Fails "print(1\n/0);" .tree (.runtime { fault := .divisionByZero, line := 2 }) := by
    have failed : ((Engine.ofStatements {} program).run 1).status =
      .failed { fault := .divisionByZero, line := 2 } := rfl
    exact .stopped compiled rfl failed
  have run : Fails "print(1\n/0);" .code (.runtime { fault := .divisionByZero, line := 1 }) := by
    let code := program.lower.code
    let execution := Execution.start {} code
    have failed : ((Engine.code code.routine execution).run 1).status =
      .failed { fault := .divisionByZero, line := 1 } := rfl
    exact .stopped compiled rfl failed
  have onLines := (reported_lines_are_real "print(1\n/0);").2.1 _ (.inr (.inr walk))
  obtain ⟨compilation, compiled', _, atMost⟩ :=
    (reported_lines_are_real "print(1\n/0);").2.2.2 _ run
  refine ⟨⟨refused, (reported_lines_are_real _).1 _ refused⟩, ⟨parsed, ?_⟩, compilation, compiled',
    walk, onLines.1, run, atMost⟩
  exact (reported_lines_are_real "\nprint").2.2.1 _ 0 _ early (.inl rfl)

end TinyImp
