import Mathlib.Data.List.Forall2
import TinyImp.Proofs.Runs

/-! # Lines pass through

Every stage copies lines from what it is given to what it makes of it, and decides nothing by them.
This is stated once, for any relation `lines` between the lines of two inputs: where two inputs
differ in their lines only, and these correspond, the same holds of the outputs. Two relations are
of use. If any two lines correspond, lines have no influence at all. If a line corresponds to itself
only, and only where it is one of some set, then all lines of the output are from that set.
-/

namespace TinyImp

/-- Any two lines correspond. -/
def anyLines (_ _ : Nat) : Prop :=
  True

/-- Tokens of one kind and spelling, on corresponding lines. -/
structure Token.Parallel (lines : Nat → Nat → Prop) (left right : Token) : Prop where
  kind : left.kind = right.kind
  lexeme : left.lexeme = right.lexeme
  line : lines left.line right.line

/-- Expressions that differ in their lines only, which correspond. -/
inductive Expr.Parallel (lines : Nat → Nat → Prop) : Expr → Expr → Prop where
  | const {value : Value} {line line' : Nat} :
      lines line line' →
      Parallel lines (.const value line) (.const value line')
  | var {name : String} {line line' : Nat} :
      lines line line' →
      Parallel lines (.var name line) (.var name line')
  | unary {op : UnaryOp} {operand operand' : Expr} {line line' : Nat} :
      Parallel lines operand operand' →
      lines line line' →
      Parallel lines (.unary op operand line) (.unary op operand' line')
  | binary {op : BinaryOp} {left left' right right' : Expr} {line line' : Nat} :
      Parallel lines left left' →
      Parallel lines right right' →
      lines line line' →
      Parallel lines (.binary op left right line) (.binary op left' right' line')

/-- Statements that differ in their lines only, which correspond. -/
inductive Statement.Parallel (lines : Nat → Nat → Prop) : Statement → Statement → Prop where
  | declare {names : List String} {line line' : Nat} :
      lines line line' →
      Parallel lines (.declare names line) (.declare names line')
  | assign {target : String} {value value' : Expr} {line line' : Nat} :
      value.Parallel lines value' →
      lines line line' →
      Parallel lines (.assign target value line) (.assign target value' line')
  | print {value value' : Expr} {line line' : Nat} :
      value.Parallel lines value' →
      lines line line' →
      Parallel lines (.print value line) (.print value' line')
  | loop {condition condition' : Expr} {body body' : Block} {line line' : Nat} :
      condition.Parallel lines condition' →
      List.Forall₂ (Parallel lines) body body' →
      lines line line' →
      Parallel lines (.loop condition body line) (.loop condition' body' line')
  | branch {condition condition' : Expr} {whenTrue whenTrue' whenFalse whenFalse' : Block}
      {line line' : Nat} :
      condition.Parallel lines condition' →
      List.Forall₂ (Parallel lines) whenTrue whenTrue' →
      List.Forall₂ (Parallel lines) whenFalse whenFalse' →
      lines line line' →
      Parallel lines (.branch condition whenTrue whenFalse line)
        (.branch condition' whenTrue' whenFalse' line')

abbrev Block.Parallel (lines : Nat → Nat → Prop) : Block → Block → Prop :=
  List.Forall₂ (Statement.Parallel lines)

/-- The expression with all lines erased. -/
def Expr.eraseLines : Expr → Expr
  | .const value _ => .const value 0
  | .var name _ => .var name 0
  | .unary op operand _ => .unary op operand.eraseLines 0
  | .binary op left right _ => .binary op left.eraseLines right.eraseLines 0

mutual

/-- The statement with all lines erased. -/
def Statement.eraseLines : Statement → Statement
  | .declare names _ => .declare names 0
  | .assign target value _ => .assign target value.eraseLines 0
  | .print value _ => .print value.eraseLines 0
  | .loop condition body _ => .loop condition.eraseLines (Block.eraseLines body) 0
  | .branch condition whenTrue whenFalse _ =>
      .branch condition.eraseLines (Block.eraseLines whenTrue) (Block.eraseLines whenFalse) 0

/-- The statements with all lines erased. -/
def Block.eraseLines : List Statement → List Statement
  | [] => []
  | statement :: rest => statement.eraseLines :: Block.eraseLines rest

end

/-- The same fault on corresponding lines. -/
structure Located.Parallel {κ : Type} (lines : Nat → Nat → Prop) (left right : Located κ) :
    Prop where
  fault : left.fault = right.fault
  line : lines left.line right.line

/-- Corresponding results, or the same fault on corresponding lines. -/
inductive Outcome.Parallel {κ α β : Type} (lines : Nat → Nat → Prop) (results : α → β → Prop) :
    Except (Located κ) α → Except (Located κ) β → Prop where
  | ok {a : α} {b : β} :
      results a b →
      Parallel lines results (.ok a) (.ok b)
  | error {error error' : Located κ} :
      error.Parallel lines error' →
      Parallel lines results (.error error) (.error error')

variable {lines : Nat → Nat → Prop}

namespace Outcome.Parallel

variable {κ α α' β β' : Type} {results : α → α' → Prop} {values : β → β' → Prop}

theorem bind {first : Except (Located κ) α} {first' : Except (Located κ) α'}
    {further : α → Except (Located κ) β} {further' : α' → Except (Located κ) β'}
    (parallel : Outcome.Parallel lines results first first')
    (goesOn : ∀ a a', results a a' → Outcome.Parallel lines values (further a) (further' a')) :
    Outcome.Parallel lines values (first >>= further) (first' >>= further') := by
  cases parallel with
  | ok related => exact goesOn _ _ related
  | error related => exact .error related

theorem locate {line line' : Nat} (corresponds : lines line line') (result : Except κ α) :
    Outcome.Parallel lines Eq (locate line result) (locate line' result) := by
  cases result with
  | ok a => exact .ok rfl
  | error fault => exact .error ⟨rfl, corresponds⟩

/-- Without its line the outcome is the same. -/
theorem eq_of_fault {left right : Except (Located κ) α}
    (parallel : Outcome.Parallel lines Eq left right) :
    left.mapError (·.fault) = right.mapError (·.fault) := by
  cases parallel with
  | ok same => rw [same]
  | error related => exact congrArg Except.error related.fault

theorem toOption {left right : Except (Located κ) α}
    (parallel : Outcome.Parallel lines Eq left right) : left.toOption = right.toOption := by
  cases parallel with
  | ok same => rw [same]
  | error => rfl

end Outcome.Parallel

theorem SymbolTable.declareAll_parallel {line line' : Nat} (corresponds : lines line line')
    (table : SymbolTable) (names : List String) :
    Outcome.Parallel lines Eq (table.declareAll line names) (table.declareAll line' names) := by
  induction names generalizing table with
  | nil => exact .ok rfl
  | cons name names ih =>
      simp only [SymbolTable.declareAll]
      split
      · exact ih _
      · exact .error ⟨rfl, corresponds⟩

theorem SymbolTable.require_parallel {line line' : Nat} (corresponds : lines line line')
    (table : SymbolTable) (name : String) :
    Outcome.Parallel lines Eq (table.require name line) (table.require name line') := by
  simp only [SymbolTable.require]
  split
  · exact .ok rfl
  · exact .error ⟨rfl, corresponds⟩

namespace Expr.Parallel

variable {left right : Expr}

theorem eraseLines (parallel : left.Parallel lines right) :
    left.eraseLines = right.eraseLines := by
  induction parallel with
  | const | var => rfl
  | unary _ _ ih => simp only [Expr.eraseLines, ih]
  | binary _ _ _ ihl ihr => simp only [Expr.eraseLines, ihl, ihr]

theorem height (parallel : left.Parallel lines right) : left.height = right.height := by
  induction parallel with
  | const | var => rfl
  | unary _ _ ih => simp only [Expr.height, ih]
  | binary _ _ _ ihl ihr => simp only [Expr.height, ihl, ihr]

theorem lower (parallel : left.Parallel lines right) (temporaries : Nat) :
    left.lower temporaries = right.lower temporaries := by
  induction parallel generalizing temporaries with
  | const | var => rfl
  | unary _ _ ih => simp only [Expr.lower, ih]
  | binary _ _ _ ihl ihr => simp only [Expr.lower, ihl, ihr]

theorem check (parallel : left.Parallel lines right) (table : SymbolTable) :
    Outcome.Parallel lines Eq (left.check table) (right.check table) := by
  induction parallel with
  | const => exact .ok rfl
  | var corresponds => exact table.require_parallel corresponds _
  | unary _ _ ih => exact ih
  | binary _ _ _ ihl ihr => exact ihl.bind fun _ _ _ => ihr

theorem eval (parallel : left.Parallel lines right) (store : Store) :
    Outcome.Parallel lines Eq (left.eval store) (right.eval store) := by
  induction parallel with
  | const => exact .ok rfl
  | var corresponds =>
      simp only [Expr.eval]
      split
      · exact .ok rfl
      · exact .error ⟨rfl, corresponds⟩
  | unary _ corresponds ih =>
      refine ih.bind ?_
      rintro value _ rfl
      exact .locate corresponds _
  | binary _ _ corresponds ihl ihr =>
      refine ihl.bind ?_
      rintro leftValue _ rfl
      refine ihr.bind ?_
      rintro rightValue _ rfl
      exact .locate corresponds _

end Expr.Parallel

mutual

theorem Statement.Parallel.eraseLines {left right : Statement}
    (parallel : left.Parallel lines right) : left.eraseLines = right.eraseLines := by
  cases parallel with
  | declare => rfl
  | assign value _ | print value _ => simp only [Statement.eraseLines, value.eraseLines]
  | loop condition body _ =>
      simp only [Statement.eraseLines, condition.eraseLines, Block.Parallel.eraseLines body]
  | branch condition whenTrue whenFalse _ =>
      simp only [Statement.eraseLines, condition.eraseLines, Block.Parallel.eraseLines whenTrue,
        Block.Parallel.eraseLines whenFalse]
termination_by sizeOf left

theorem Block.Parallel.eraseLines {left right : Block}
    (parallel : Block.Parallel lines left right) :
    Block.eraseLines left = Block.eraseLines right := by
  cases parallel with
  | nil => rfl
  | cons first rest =>
      simp only [Block.eraseLines, Statement.Parallel.eraseLines first,
        Block.Parallel.eraseLines rest]
termination_by sizeOf left

end

mutual

theorem Statement.Parallel.check {left right : Statement} (parallel : left.Parallel lines right)
    (table : SymbolTable) :
    Outcome.Parallel lines Eq (left.check table) (right.check table) := by
  cases parallel with
  | declare corresponds => exact table.declareAll_parallel corresponds _
  | assign value corresponds =>
      refine (table.require_parallel corresponds _).bind fun _ _ _ => ?_
      exact (value.check table).bind fun _ _ _ => .ok rfl
  | print value _ => exact (value.check table).bind fun _ _ _ => .ok rfl
  | loop condition body _ =>
      exact (condition.check table).bind fun _ _ _ => Block.Parallel.check body table
  | branch condition whenTrue whenFalse _ =>
      refine (condition.check table).bind fun _ _ _ => ?_
      refine (Block.Parallel.check whenTrue table).bind ?_
      rintro after _ rfl
      exact Block.Parallel.check whenFalse after
termination_by sizeOf left

theorem Block.Parallel.check {left right : Block} (parallel : Block.Parallel lines left right)
    (table : SymbolTable) :
    Outcome.Parallel lines Eq (Block.check table left) (Block.check table right) := by
  cases parallel with
  | nil => exact .ok rfl
  | cons first rest =>
      refine (Statement.Parallel.check first table).bind ?_
      rintro after _ rfl
      exact Block.Parallel.check rest after
termination_by sizeOf left

end

mutual

theorem Statement.Parallel.lower {left right : Statement} (parallel : left.Parallel lines right)
    (counters : Counters) : left.lower counters = right.lower counters := by
  cases parallel with
  | declare => rfl
  | assign value _ | print value _ => simp only [Statement.lower, value.lower]
  | loop condition body _ =>
      simp only [Statement.lower, condition.lower, Block.Parallel.lower body]
  | branch condition whenTrue whenFalse _ =>
      simp only [Statement.lower, condition.lower, Block.Parallel.lower whenTrue,
        Block.Parallel.lower whenFalse]
termination_by sizeOf left

theorem Block.Parallel.lower {left right : Block} (parallel : Block.Parallel lines left right)
    (counters : Counters) : Block.lower left counters = Block.lower right counters := by
  cases parallel with
  | nil => rfl
  | cons first rest =>
      simp only [Block.lower, Statement.Parallel.lower first, Block.Parallel.lower rest]
termination_by sizeOf left

end

/-- Steps to corresponding states, or the same end. -/
inductive Step.Parallel {σ τ : Type} (lines : Nat → Nat → Prop) (states : σ → τ → Prop) :
    Step σ → Step τ → Prop where
  | finish : Parallel lines states .finish .finish
  | fail {error error' : RuntimeError} {event : Option Event} {state : σ} {state' : τ} :
      error.Parallel lines error' →
      states state state' →
      Parallel lines states (.fail error event state) (.fail error' event state')
  | next {event : Option Event} {state : σ} {state' : τ} :
      states state state' →
      Parallel lines states (.next event state) (.next event state')

theorem Step.Parallel.given {σ τ α : Type} {states : σ → τ → Prop} {state : σ} {state' : τ}
    {left right : Except RuntimeError α} {proceed : α → Step σ} {proceed' : α → Step τ}
    (start : states state state') (parallel : Outcome.Parallel lines Eq left right)
    (goesOn : ∀ a, (proceed a).Parallel lines states (proceed' a)) :
    (Step.given state left proceed).Parallel lines states (Step.given state' right proceed') := by
  cases parallel with
  | ok same => cases same; exact goesOn _
  | error related => exact .fail related start

theorem Step.Parallel.map {σ τ σ' τ' : Type} {states : σ → τ → Prop} {larger : σ' → τ' → Prop}
    {left : Step σ} {right : Step τ} {f : σ → σ'} {g : τ → τ'}
    (parallel : left.Parallel lines states right)
    (keeps : ∀ a b, states a b → larger (f a) (g b)) :
    (left.map f).Parallel lines larger (right.map g) := by
  cases parallel with
  | finish => exact .finish
  | fail errors related => exact .fail errors (keeps _ _ related)
  | next related => exact .next (keeps _ _ related)

/-- Walks in the same store whose statements differ in their lines only. -/
structure Walk.Parallel (lines : Nat → Nat → Prop) (left right : Walk) : Prop where
  pending : Block.Parallel lines left.pending right.pending
  store : left.store = right.store

theorem Walk.Parallel.step {left right : Walk} (parallel : left.Parallel lines right) :
    left.step.Parallel lines (Walk.Parallel lines) right.step := by
  obtain ⟨pending, store⟩ := left
  obtain ⟨pending', store'⟩ := right
  obtain ⟨related, same⟩ := parallel
  dsimp only at related same
  subst same
  cases related with
  | nil => exact .finish
  | @cons first first' rest rest' first rest =>
      have start : Walk.Parallel lines ⟨_, store⟩ ⟨_, store⟩ := ⟨.cons first rest, rfl⟩
      cases first with
      | declare => exact .next ⟨rest, rfl⟩
      | @assign target _ _ _ _ value corresponds =>
          rw [Walk.step_assign, Walk.step_assign]
          refine .given start (value.eval store) fun result => ?_
          cases store.assign? target result with
          | none => exact .fail ⟨rfl, corresponds⟩ start
          | some after => exact .next ⟨rest, rfl⟩
      | print value =>
          rw [Walk.step_print, Walk.step_print]
          exact .given start (value.eval store) fun _ => .next ⟨rest, rfl⟩
      | loop condition body corresponds =>
          rw [Walk.step_loop, Walk.step_loop]
          refine .given start (condition.eval store) fun result => .next ⟨?_, rfl⟩
          cases result.isTrue with
          | true => exact List.rel_append body (.cons (.loop condition body corresponds) rest)
          | false => exact rest
      | branch condition whenTrue whenFalse =>
          rw [Walk.step_branch, Walk.step_branch]
          refine .given start (condition.eval store) fun result => .next ⟨?_, rfl⟩
          cases result.isTrue with
          | true => exact List.rel_append whenTrue rest
          | false => exact List.rel_append whenFalse rest

/-- Walks in the course of a run. -/
inductive Engine.Parallel (lines : Nat → Nat → Prop) : Engine → Engine → Prop where
  | tree {walk walk' : Walk} :
      walk.Parallel lines walk' →
      Parallel lines (.tree walk) (.tree walk')

theorem Engine.Parallel.step {left right : Engine} (parallel : left.Parallel lines right) :
    left.step.Parallel lines (Engine.Parallel lines) right.step := by
  cases parallel with
  | tree related => exact related.step.map fun _ _ => .tree

theorem Engine.Parallel.store {left right : Engine} (parallel : left.Parallel lines right) :
    left.store = right.store := by
  cases parallel with
  | tree related => exact related.store

/-- Both runs are under way, or both have ended, with the same fault if there is one. -/
inductive Status.Parallel (lines : Nat → Nat → Prop) : Status → Status → Prop where
  | running : Parallel lines .running .running
  | finished : Parallel lines .finished .finished
  | failed {error error' : RuntimeError} :
      error.Parallel lines error' →
      Parallel lines (.failed error) (.failed error')

theorem Status.Parallel.ending {left right : Status} (parallel : left.Parallel lines right) :
    left.ending? = right.ending? := by
  cases parallel with
  | running | finished => rfl
  | failed related => simp only [Status.ending?, related.fault]

/-- Runs that have shown the same events and stand in corresponding states. -/
structure Run.Parallel {σ τ : Type} (lines : Nat → Nat → Prop) (states : σ → τ → Prop)
    (left : Run σ) (right : Run τ) : Prop where
  state : states left.state right.state
  events : left.events = right.events
  status : left.status.Parallel lines right.status

namespace Run.Parallel

variable {σ τ : Type} {states : σ → τ → Prop} {step : σ → Step σ} {step' : τ → Step τ}
  {left : Run σ} {right : Run τ}

theorem advance (keeps : ∀ a b, states a b → (step a).Parallel lines states (step' b))
    (parallel : left.Parallel lines states right) :
    (left.advance step).Parallel lines states (right.advance step') := by
  obtain ⟨a, seen, status⟩ := left
  obtain ⟨b, seen', status'⟩ := right
  obtain ⟨related, same, statuses⟩ := parallel
  dsimp only at related same statuses
  subst same
  cases statuses with
  | finished => exact ⟨related, rfl, .finished⟩
  | failed errors => exact ⟨related, rfl, .failed errors⟩
  | running =>
      simp only [Run.advance]
      have steps := keeps a b related
      generalize step a = taken at steps
      generalize step' b = taken' at steps
      cases steps with
      | finish => exact ⟨related, rfl, .finished⟩
      | @fail _ _ event _ _ errors related =>
          cases event with
          | none => exact ⟨related, rfl, .failed errors⟩
          | some event => exact ⟨related, rfl, .failed errors⟩
      | @next event _ _ related =>
          cases event with
          | none => exact ⟨related, rfl, .running⟩
          | some event => exact ⟨related, rfl, .running⟩

theorem after (keeps : ∀ a b, states a b → (step a).Parallel lines states (step' b))
    (parallel : left.Parallel lines states right) (steps : Nat) :
    (left.after step steps).Parallel lines states (right.after step' steps) := by
  induction steps generalizing left right with
  | zero => exact parallel
  | succ steps ih => exact ih (parallel.advance keeps)

end Run.Parallel

/-- Whole runs of walks over statements that differ in their lines only. -/
theorem Block.Parallel.run {left right : Block} (parallel : Block.Parallel lines left right)
    (store : Store) (steps : Nat) :
    ((Engine.ofStatements store left).run steps).Parallel lines (Engine.Parallel lines)
      ((Engine.ofStatements store right).run steps) := by
  have start : Run.Parallel lines (Engine.Parallel lines)
      { state := Engine.ofStatements store left } { state := Engine.ofStatements store right } :=
    ⟨.tree ⟨parallel, rfl⟩, rfl, .running⟩
  exact start.after (fun _ _ related => related.step) steps

end TinyImp
