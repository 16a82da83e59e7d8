import TinyImp.Proofs.Scope

/-! # Both back ends do the same

A walk over a program and a run of its code cannot be told apart, whatever variables and temporaries
the machine holds at the start. For a source this means that both back ends report the same error or
show the same run.
-/

namespace TinyImp

theorem Store.get?_declareAll (store : Store) (names : List String) (name : String) :
    (store.declareAll names).get? name =
      (store.get? name).or (if name ∈ names then some 0 else none) := by
  induction names generalizing store with
  | nil => simp [declareAll]
  | cons first names ih =>
      rw [declareAll, List.foldl_cons, ← declareAll, ih, get?_declare]
      by_cases same : first = name
      · subst same
        cases store.get? first <;> simp
      · have different : ¬ name = first := fun h => same h.symm
        simp [same, different]

/-- The stages of parsing, without their notes. -/
theorem parse_eq (source : String) :
    parse source = (do
      let tokens ← (tokenize source).mapError .lexical
      (Program.ofTokens tokens).mapError .syntactic) := by
  cases scanned : tokenize source with
  | error error =>
      simp [parse, Build.tokens, Build.stage, Build.outcome, scanned, bind, EStateM.bind,
        Except.mapError, Except.bind]
  | ok tokens =>
      cases parsed : Program.ofTokens tokens <;>
        simp [parse, Build.tokens, Build.program, Build.stage, Build.outcome, scanned, parsed, bind,
          EStateM.bind, Except.mapError, Except.bind]

/-- The stages of a check, without their notes. -/
theorem check_eq (source : String) :
    check source = (do
      let tokens ← (tokenize source).mapError .lexical
      let program ← (Program.ofTokens tokens).mapError .syntactic
      let symbols ← program.check.mapError .scope
      return { tokens, program, symbols }) := by
  cases scanned : tokenize source with
  | error error =>
      simp [check, Build.checked, Build.tokens, Build.stage, Build.outcome, scanned, bind,
        EStateM.bind, Except.mapError, Except.bind]
  | ok tokens =>
      cases parsed : Program.ofTokens tokens with
      | error error =>
          simp [check, Build.checked, Build.tokens, Build.program, Build.stage, Build.outcome,
            scanned, parsed, bind, EStateM.bind, Except.mapError, Except.bind]
      | ok program =>
          cases checked : program.check <;>
            simp [check, Build.checked, Build.tokens, Build.program, Build.symbols, Build.stage,
              Build.outcome, scanned, parsed, checked, bind, EStateM.bind, pure, EStateM.pure,
              Except.mapError, Except.bind, Except.pure]

theorem check_ok {source : String} {checked : Checked} (outcome : check source = .ok checked) :
    checked.program.check = .ok checked.symbols := by
  rw [check_eq] at outcome
  obtain ⟨tokens, -, outcome⟩ := Except.bind_eq_ok_iff.mp outcome
  obtain ⟨program, -, outcome⟩ := Except.bind_eq_ok_iff.mp outcome
  obtain ⟨symbols, passed, outcome⟩ := Except.bind_eq_ok_iff.mp outcome
  cases outcome
  cases result : program.check with
  | error error => simp [result, Except.mapError] at passed
  | ok symbols' => simpa [result, Except.mapError] using passed

/-- Compilation fails where the check does, and otherwise adds the code. -/
theorem compile_eq (source : String) :
    compile source = (check source).map fun checked =>
      { checked with code := checked.program.lower.code } := by
  simp only [compile, check, Build.compilation, Build.outcome, bind, EStateM.bind]
  cases Build.checked source #[] <;> rfl

/-- For every program and every machine, the walk over the program from the variables of the machine,
    where each name that is declared anywhere in the program and missing is zero, is equivalent to
    the run of the code on the machine. For every source, both back ends report the same error or
    run equivalently. -/
theorem lowering_preserves_behaviour :
    (∀ (program : Program) (machine : Machine), ∃ store engine,
      (∀ name, store.get? name = (machine.store.get? name).or
        (if name ∈ Block.declared program then some 0 else none)) ∧
      Engine.ofCode machine program.lower.code = .ok engine ∧
      (Engine.ofStatements store program).Equivalent engine) ∧
    (∀ source : String,
      (∃ error, check source = .error error ∧ compile source = .error error) ∨
      ∃ compilation tree code, check source = .ok compilation.toChecked ∧
        compile source = .ok compilation ∧
        Engine.ofCompilation compilation .tree = .ok tree ∧
        Engine.ofCompilation compilation .code = .ok code ∧ tree.Equivalent code) := by
  constructor
  · intro program machine
    obtain ⟨engine, linked, equivalent⟩ := program.lower_equivalent machine
    exact ⟨_, engine, Store.get?_declareAll _ _, linked, equivalent⟩
  · intro source
    cases outcome : check source with
    | error error => exact .inl ⟨error, rfl, by rw [compile_eq, outcome]; rfl⟩
    | ok checked =>
        have listed := (Program.check_covers (check_ok outcome)).1
        obtain ⟨engine, linked, equivalent⟩ := checked.program.lower_equivalent {}
        rw [← listed] at equivalent
        exact .inr ⟨{ checked with code := checked.program.lower.code }, _, engine, rfl,
          by rw [compile_eq, outcome]; rfl, rfl, linked, equivalent⟩

end TinyImp
