import TinyImp.Proofs.Lines
import TinyImp.Proofs.Safety

/-! # What a walk reads and changes

A walk reads no variable but those that its statements use, and changes none but those that they
assign. The first is a statement about two walks: over the same statements, in stores that agree on
the variables used, they do the same in every step. The second compares the store of a walk with the
one it began with. Variables neither come into existence nor vanish on the way.
-/

namespace TinyImp

/-- The stores hold the same values of these variables, or both none. -/
def Store.AgreesOn (names : List String) (left right : Store) : Prop :=
  ∀ name ∈ names, left.get? name = right.get? name

namespace Store.AgreesOn

variable {names fewer : List String} {left right : Store}

theorem mono (agree : left.AgreesOn names right) (among : fewer ⊆ names) :
    left.AgreesOn fewer right :=
  fun name member => agree name (among member)

/-- Assignment to one of the variables succeeds in both stores or in neither. -/
theorem assign {target : String} (agree : left.AgreesOn names right) (member : target ∈ names)
    (value : Value) :
    Option.Rel (Store.AgreesOn names) (left.assign? target value) (right.assign? target value) := by
  have same := agree target member
  cases assigned : left.assign? target value with
  | none =>
      have missing := Store.assign?_eq_none_iff.mp assigned
      rw [same] at missing
      rw [Store.assign?_eq_none_iff.mpr missing]
      exact .none
  | some after =>
      cases assigned' : right.assign? target value with
      | none =>
          have missing := Store.assign?_eq_none_iff.mp assigned'
          rw [← same, ← Store.assign?_eq_none_iff, assigned] at missing
          cases missing
      | some after' =>
          apply Option.Rel.some
          intro name among
          rw [Store.get?_of_assign? assigned, Store.get?_of_assign? assigned', agree name among]

end Store.AgreesOn

theorem Expr.eval_agrees {expr : Expr} {left right : Store}
    (agree : left.AgreesOn expr.uses right) : expr.eval left = expr.eval right := by
  induction expr with
  | const value line => rfl
  | var name line =>
      have same := agree name (List.mem_singleton_self name)
      simp only [Expr.eval, same]
  | unary op operand line ih => simp only [Expr.eval, ih agree]
  | binary op first second line ihl ihr =>
      have firstAgree := agree.mono (List.subset_append_left first.uses second.uses)
      have secondAgree := agree.mono (List.subset_append_right first.uses second.uses)
      simp only [Expr.eval, ihl firstAgree, ihr secondAgree]

/-- Walks over the same statements, which use these variables only, in stores that agree on them. -/
structure Walk.AgreesOn (names : List String) (left right : Walk) : Prop where
  pending : left.pending = right.pending
  within : Block.uses left.pending ⊆ names
  stores : left.store.AgreesOn names right.store

/-- A value that both walks compute, and what they make of it. -/
theorem Walk.AgreesOn.given {names : List String} {expr : Expr} {left right : Walk}
    {proceed proceed' : Value → Step Walk} (agree : left.AgreesOn names right)
    (among : expr.uses ⊆ names)
    (goesOn : ∀ value, (proceed value).Parallel Eq (Walk.AgreesOn names) (proceed' value)) :
    (Step.given left (expr.eval left.store) proceed).Parallel Eq (Walk.AgreesOn names)
      (Step.given right (expr.eval right.store) proceed') := by
  rw [Expr.eval_agrees (agree.stores.mono among)]
  cases expr.eval right.store with
  | ok value => exact goesOn value
  | error error => exact .fail ⟨rfl, rfl⟩ agree

/-- The walks do the same in a step, and go on in stores that agree. -/
theorem Walk.AgreesOn.step {names : List String} {left right : Walk}
    (agree : left.AgreesOn names right) :
    left.step.Parallel Eq (Walk.AgreesOn names) right.step := by
  obtain ⟨pending, store⟩ := left
  obtain ⟨pending', store'⟩ := right
  obtain rfl : pending = pending' := agree.pending
  have within : Block.uses pending ⊆ names := agree.within
  have stores : store.AgreesOn names store' := agree.stores
  cases pending with
  | nil => exact .finish
  | cons statement rest =>
      obtain ⟨here, further⟩ := List.append_subset.mp within
      cases statement with
      | declare names line => exact .next ⟨rfl, further, stores⟩
      | assign target value line =>
          obtain ⟨isTarget, inValue⟩ := List.cons_subset.mp here
          rw [Walk.step_assign, Walk.step_assign]
          apply agree.given inValue
          intro result
          have assigned := stores.assign isTarget result
          generalize store.assign? target result = after at assigned
          generalize store'.assign? target result = after' at assigned
          cases assigned with
          | none => exact .fail ⟨rfl, rfl⟩ agree
          | some stores => exact .next ⟨rfl, further, stores⟩
      | print value line =>
          rw [Walk.step_print, Walk.step_print]
          apply agree.given here
          intro result
          exact .next ⟨rfl, further, stores⟩
      | loop condition body line =>
          obtain ⟨inCondition, inBody⟩ := List.append_subset.mp here
          rw [Walk.step_loop, Walk.step_loop]
          apply agree.given inCondition
          intro result
          have again : Block.uses (body ++ .loop condition body line :: rest) ⊆ names := by
            rw [Block.uses_append]
            exact List.append_subset.mpr ⟨inBody, within⟩
          cases holds : result.isTrue with
          | true => exact .next ⟨rfl, again, stores⟩
          | false => exact .next ⟨rfl, further, stores⟩
      | branch condition whenTrue whenFalse line =>
          obtain ⟨inTest, inFalse⟩ := List.append_subset.mp here
          obtain ⟨inCondition, inTrue⟩ := List.append_subset.mp inTest
          rw [Walk.step_branch, Walk.step_branch]
          apply agree.given inCondition
          intro result
          have chosen : Block.uses ((if result.isTrue then whenTrue else whenFalse) ++ rest) ⊆
              names := by
            rw [Block.uses_append]
            cases result.isTrue with
            | true => exact List.append_subset.mpr ⟨inTrue, further⟩
            | false => exact List.append_subset.mpr ⟨inFalse, further⟩
          exact .next ⟨rfl, chosen, stores⟩

/-- Walks that agree, in the course of a run. -/
inductive Engine.AgreesOn (names : List String) : Engine → Engine → Prop where
  | tree {walk walk' : Walk} :
      walk.AgreesOn names walk' →
      AgreesOn names (.tree walk) (.tree walk')

theorem Engine.AgreesOn.step {names : List String} {left right : Engine}
    (agree : left.AgreesOn names right) :
    left.step.Parallel Eq (Engine.AgreesOn names) right.step := by
  cases agree with
  | tree walks => exact walks.step.map fun _ _ => .tree

theorem Engine.AgreesOn.stores {names : List String} {left right : Engine}
    (agree : left.AgreesOn names right) : left.store.AgreesOn names right.store := by
  cases agree with
  | tree walks => exact walks.stores

theorem Status.Parallel.eq {left right : Status} (parallel : left.Parallel Eq right) :
    left = right := by
  cases parallel with
  | running | finished => rfl
  | @failed error error' related =>
      cases error
      cases error'
      cases related.fault
      cases related.line
      rfl

/-- Whole runs over the same statements. -/
theorem Store.AgreesOn.run {names : List String} {left right : Store} {statements : List Statement}
    (agree : left.AgreesOn names right) (within : Block.uses statements ⊆ names) (steps : Nat) :
    ((Engine.ofStatements left statements).run steps).Parallel Eq (Engine.AgreesOn names)
      ((Engine.ofStatements right statements).run steps) := by
  have start : Run.Parallel Eq (Engine.AgreesOn names) { state := Engine.ofStatements left statements }
      { state := Engine.ofStatements right statements } :=
    ⟨.tree ⟨rfl, within, agree⟩, rfl, .running⟩
  exact start.after (fun _ _ related => related.step) steps

mutual

/-- The variables that a statement assigns. -/
def Statement.targets : Statement → List String
  | .declare _ _ | .print _ _ => []
  | .assign target _ _ => [target]
  | .loop _ body _ => Block.targets body
  | .branch _ whenTrue whenFalse _ => Block.targets whenTrue ++ Block.targets whenFalse

def Block.targets : List Statement → List String
  | [] => []
  | statement :: rest => statement.targets ++ Block.targets rest

end

theorem Block.targets_append (first second : List Statement) :
    Block.targets (first ++ second) = Block.targets first ++ Block.targets second := by
  induction first with
  | nil => rfl
  | cons statement rest ih => simp [Block.targets, ih]

/-- The same variables exist in both stores, and those outside `targets` have the same values. -/
structure Store.KeptOutside (targets : List String) (before after : Store) : Prop where
  exist : ∀ name, (after.get? name).isSome = (before.get? name).isSome
  values : ∀ name, name ∉ targets → after.get? name = before.get? name

namespace Store.KeptOutside

variable {targets : List String} {before middle after : Store}

theorem refl (store : Store) : store.KeptOutside targets store :=
  ⟨fun _ => rfl, fun _ _ => rfl⟩

theorem assign {target : String} {value : Value} (kept : before.KeptOutside targets middle)
    (member : target ∈ targets) (assigned : middle.assign? target value = some after) :
    before.KeptOutside targets after := by
  constructor
  · intro name
    rw [← kept.exist name, Store.get?_of_assign? assigned]
    split
    next same =>
      have bound : middle.get? target ≠ none := by
        intro missing
        rw [← Store.assign?_eq_none_iff, assigned] at missing
        cases missing
      subst same
      exact (Option.isSome_iff_ne_none.mpr bound).symm
    next => rfl
  · intro name outside
    have different : target ≠ name := by
      intro same
      exact outside (same ▸ member)
    rw [Store.get?_of_assign? assigned, if_neg different]
    exact kept.values name outside

end Store.KeptOutside

/-- The walk assigns none but these variables, and so it was up to now. -/
structure Walk.KeepsOutside (targets : List String) (before : Store) (walk : Walk) : Prop where
  within : Block.targets walk.pending ⊆ targets
  kept : before.KeptOutside targets walk.store

theorem Walk.KeepsOutside.step {targets : List String} {before : Store} {walk : Walk}
    (keeps : walk.KeepsOutside targets before) :
    walk.step.Leads (Walk.KeepsOutside targets before) := by
  obtain ⟨pending, store⟩ := walk
  have within := keeps.within
  have kept := keeps.kept
  cases pending with
  | nil => trivial
  | cons statement rest =>
      obtain ⟨here, further⟩ := List.append_subset.mp within
      cases statement with
      | declare names line => exact ⟨further, kept⟩
      | assign target value line =>
          rw [Walk.step_assign]
          apply Step.Leads.given keeps
          intro result
          cases assigned : store.assign? target result with
          | none => exact keeps
          | some after =>
              exact ⟨further, kept.assign (here (List.mem_singleton_self target)) assigned⟩
      | print value line =>
          rw [Walk.step_print]
          apply Step.Leads.given keeps
          intro result
          exact ⟨further, kept⟩
      | loop condition body line =>
          rw [Walk.step_loop]
          apply Step.Leads.given keeps
          intro result
          have again : Block.targets (body ++ .loop condition body line :: rest) ⊆ targets := by
            rw [Block.targets_append]
            exact List.append_subset.mpr ⟨here, within⟩
          cases holds : result.isTrue with
          | true => exact ⟨again, kept⟩
          | false => exact ⟨further, kept⟩
      | branch condition whenTrue whenFalse line =>
          obtain ⟨inTrue, inFalse⟩ := List.append_subset.mp here
          rw [Walk.step_branch]
          apply Step.Leads.given keeps
          intro result
          have chosen : Block.targets ((if result.isTrue then whenTrue else whenFalse) ++ rest) ⊆
              targets := by
            rw [Block.targets_append]
            cases result.isTrue with
            | true => exact List.append_subset.mpr ⟨inTrue, further⟩
            | false => exact List.append_subset.mpr ⟨inFalse, further⟩
          exact ⟨chosen, kept⟩

/-- At any time of a run over statements, the variables that they do not assign are as at the start. -/
theorem Engine.run_keptOutside (store : Store) (statements : List Statement) (steps : Nat) :
    store.KeptOutside (Block.targets statements)
      ((Engine.ofStatements store statements).run steps).state.store := by
  have start : Walk.KeepsOutside (Block.targets statements) store { pending := statements, store } :=
    ⟨List.Subset.refl _, .refl store⟩
  obtain ⟨walk, isTree, keeps⟩ := Engine.run_tree (fun _ keeps => keeps.step) start steps
  rw [Engine.ofStatements, isTree]
  exact keeps.kept

/-- The ways in which an assignment fails: its value has an error, or its target does not exist. -/
inductive Store.Refuses (store : Store) (target : String) (value : Expr) (line : Nat) :
    RuntimeError → Prop where
  | value {error : RuntimeError} :
      value.eval store = .error error →
      Refuses store target value line error
  | target {result : Value} :
      value.eval store = .ok result →
      store.get? target = none →
      Refuses store target value line { fault := .unboundVariable target, line }

theorem Store.Refuses.step {store : Store} {target : String} {value : Expr} {line : Nat}
    {error : RuntimeError} (refuses : store.Refuses target value line error)
    (rest : List Statement) :
    Walk.step { pending := .assign target value line :: rest, store } =
      .fail error none { pending := .assign target value line :: rest, store } := by
  rw [Walk.step_assign]
  cases refuses with
  | value failed => simp only [failed, Step.given]
  | @target result computed missing =>
      have unassigned : store.assign? target result = none := Store.assign?_eq_none_iff.mpr missing
      simp only [computed, Step.given, unassigned]

/-- Runs of a statement in two stores that agree on some variables, among them all that the statement
    uses, show the same events, have the same status, and agree on these variables again, after any
    number of steps; so both go on forever or none. At any time of a run the same variables exist as
    at the start, and those that the statement does not assign have kept their values. An assignment
    that fails ends the run and leaves all variables as they are. -/
theorem execution_touches_only_its_variables (statement : Statement) :
    (∀ (names : List String) (left right : Store), statement.uses ⊆ names →
      left.AgreesOn names right →
      ((Engine.ofStatements left [statement]).Diverges ↔
        (Engine.ofStatements right [statement]).Diverges) ∧
      ∀ steps : Nat,
        let run := (Engine.ofStatements left [statement]).run steps
        let otherRun := (Engine.ofStatements right [statement]).run steps
        run.events = otherRun.events ∧ run.status = otherRun.status ∧
          run.state.store.AgreesOn names otherRun.state.store) ∧
    (∀ (store : Store) (steps : Nat),
      let after := ((Engine.ofStatements store [statement]).run steps).state.store
      (∀ name, (after.get? name).isSome = (store.get? name).isSome) ∧
        ∀ name, name ∉ statement.targets → after.get? name = store.get? name) ∧
    (∀ (store before : Store) (steps : Nat) (target : String) (value : Expr) (line : Nat)
      (rest : List Statement) (error : RuntimeError),
      let run := (Engine.ofStatements store [statement]).run steps
      run.status = .running →
      run.state = .tree { pending := .assign target value line :: rest, store := before } →
      before.Refuses target value line error →
      ∀ more : Nat, (Engine.ofStatements store [statement]).run (steps + 1 + more) =
        { run with status := .failed error }) := by
  refine ⟨?agree, ?kept, ?failed⟩
  case agree =>
    intro names left right among agree
    have within : Block.uses [statement] ⊆ names := by
      simpa [Block.uses] using among
    have runs := agree.run within
    constructor
    · unfold Engine.Diverges
      simp only [(runs _).status.eq]
    · intro steps
      exact ⟨(runs steps).events, (runs steps).status.eq, (runs steps).state.stores⟩
  case kept =>
    intro store steps
    have kept := Engine.run_keptOutside store [statement] steps
    have targets : Block.targets [statement] = statement.targets := List.append_nil _
    rw [targets] at kept
    exact ⟨kept.exist, kept.values⟩
  case failed =>
    intro store before steps target value line rest error run running here refuses more
    have fails : run.state.step = .fail error none run.state := by
      rw [here, Engine.step, refuses.step rest, Step.map]
    rw [Nat.add_assoc, Engine.run, Run.after_add]
    exact Run.after_of_fail Engine.step_atomic running fails more

/-- A loop whose second assignment has no target, in a store with one more variable than the loop
    uses and in one without it. -/
theorem loop_fails_alike_with_and_without_another_variable :
    let statement : Statement :=
      .loop (.unary .not (.var "x" 1) 1)
        [.assign "x" (.binary .add (.var "x" 2) (.const 1 2) 2) 2, .assign "z" (.var "x" 3) 3] 1
    let left : Store := Store.declareAll {} ["x", "y"]
    let right : Store := Store.declareAll {} ["x"]
    let error : RuntimeError := { fault := .unboundVariable "z", line := 3 }
    left.AgreesOn (statement.declared ++ statement.uses) right ∧
    ((Engine.ofStatements left [statement]).run 3).events =
      ((Engine.ofStatements right [statement]).run 3).events ∧
    ((Engine.ofStatements left [statement]).run 4).state.store.get? "y" = left.get? "y" ∧
    (Engine.ofStatements left [statement]).run 4 =
      { (Engine.ofStatements left [statement]).run 2 with status := .failed error } := by
  intro statement left right error
  obtain ⟨agreement, frame, refusal⟩ := execution_touches_only_its_variables statement
  have among : statement.uses ⊆ statement.declared ++ statement.uses :=
    List.subset_append_right _ _
  have agree : left.AgreesOn (statement.declared ++ statement.uses) right := by
    simp [Store.AgreesOn, statement, left, right, Statement.declared, Block.declared,
      Statement.uses, Block.uses, Expr.uses, Store.get?_declareAll]
  have alike := (agreement _ left right among agree).2 3
  have kept := (frame left 4).2 "y" (by simp [statement, Statement.targets, Block.targets])
  have failed := refusal left _ 2 "z" (.var "x" 3) 3 _ error rfl rfl (.target rfl rfl) 1
  exact ⟨agree, alike.1, kept, failed⟩

end TinyImp
