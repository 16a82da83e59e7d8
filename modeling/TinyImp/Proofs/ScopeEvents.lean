import TinyImp.Proofs.Scope

/-! # The scope check reports the first violation

Reading a program gives a list of events: declarations and uses of names, each on its line. The
rules are about this list alone, and the check decides them by going through it once with a table of
the names declared so far.
-/

namespace TinyImp

/-- What a program does with a name. -/
inductive ScopeEvent where
  | declare (name : String) (line : Nat)
  | use (name : String) (line : Nat)
  deriving Repr, DecidableEq

namespace ScopeEvent

def declared? : ScopeEvent → Option String
  | .declare name _ => some name
  | .use _ _ => none

/-- The names declared by some events, in order. -/
def declared (events : List ScopeEvent) : List String :=
  events.filterMap declared?

/-- The event breaks a rule if it comes after these. -/
def Violates (before : List ScopeEvent) : ScopeEvent → Prop
  | .declare name _ => name ∈ declared before
  | .use name _ => name ∉ declared before

/-- How a violation is reported. -/
def error : ScopeEvent → ScopeError
  | .declare name line => { fault := .alreadyDeclared name, line }
  | .use name line => { fault := .notDeclared name, line }

/-- The event at a place breaks a rule. -/
structure ViolatesAt (events : List ScopeEvent) (place : Nat) (event : ScopeEvent) : Prop where
  here : events[place]? = some event
  violates : event.Violates (events.take place)

/-- No event breaks a rule. -/
def Lawful (events : List ScopeEvent) : Prop :=
  ∀ place event, ¬ ViolatesAt events place event

/-- The error is that of the first event that breaks a rule. -/
def FirstViolation (events : List ScopeEvent) (error : ScopeError) : Prop :=
  ∃ place event, ViolatesAt events place event ∧ error = event.error ∧
    ∀ earlier < place, ∀ other, ¬ ViolatesAt events earlier other

end ScopeEvent

/-- The uses in an expression, from left to right. -/
def Expr.scopeEvents : Expr → List ScopeEvent
  | .const _ _ => []
  | .var name line => [.use name line]
  | .unary _ operand _ => operand.scopeEvents
  | .binary _ left right _ => left.scopeEvents ++ right.scopeEvents

mutual

/-- The events of a statement. The target of an assignment comes before its value. -/
def Statement.scopeEvents : Statement → List ScopeEvent
  | .declare names line => names.map (.declare · line)
  | .assign target value line => .use target line :: value.scopeEvents
  | .print value _ => value.scopeEvents
  | .loop condition body _ => condition.scopeEvents ++ Block.scopeEvents body
  | .branch condition whenTrue whenFalse _ =>
      condition.scopeEvents ++ (Block.scopeEvents whenTrue ++ Block.scopeEvents whenFalse)

/-- The events of statements in order. -/
def Block.scopeEvents : List Statement → List ScopeEvent
  | [] => []
  | statement :: rest => statement.scopeEvents ++ Block.scopeEvents rest

end

open ScopeEvent

theorem ScopeEvent.declared_append (events more : List ScopeEvent) :
    declared (events ++ more) = declared events ++ declared more :=
  List.filterMap_append

theorem Expr.scopeEvents_declared (expr : Expr) : declared expr.scopeEvents = [] := by
  induction expr with
  | const value line | var name line => rfl
  | unary op operand line ih => exact ih
  | binary op left right line ihl ihr => simp [scopeEvents, declared_append, ihl, ihr]

mutual

theorem Statement.scopeEvents_declared (statement : Statement) :
    declared statement.scopeEvents = statement.declared := by
  cases statement with
  | declare names line =>
      simp only [Statement.scopeEvents, ScopeEvent.declared, List.filterMap_map]
      exact List.filterMap_some
  | assign target value line => exact value.scopeEvents_declared
  | print value line => exact value.scopeEvents_declared
  | loop condition body line =>
      simp [Statement.scopeEvents, Statement.declared, declared_append,
        condition.scopeEvents_declared, Block.scopeEvents_declared body]
  | branch condition whenTrue whenFalse line =>
      simp [Statement.scopeEvents, Statement.declared, declared_append,
        condition.scopeEvents_declared, Block.scopeEvents_declared whenTrue,
        Block.scopeEvents_declared whenFalse]
termination_by sizeOf statement

theorem Block.scopeEvents_declared (statements : List Statement) :
    declared (Block.scopeEvents statements) = Block.declared statements := by
  cases statements with
  | nil => rfl
  | cons statement rest =>
      simp [Block.scopeEvents, Block.declared, declared_append, statement.scopeEvents_declared,
        Block.scopeEvents_declared rest]
termination_by sizeOf statements

end

namespace SymbolTable

/-- Take notice of one event. -/
def observe (table : SymbolTable) : ScopeEvent → Except ScopeError SymbolTable
  | .declare name line => table.declareAll line [name]
  | .use name line => do
      table.require name line
      return table

/-- Take notice of events in order. -/
def observeAll (table : SymbolTable) (events : List ScopeEvent) : Except ScopeError SymbolTable :=
  events.foldlM observe table

theorem observeAll_append (table : SymbolTable) (events more : List ScopeEvent) :
    table.observeAll (events ++ more) =
      table.observeAll events >>= fun table => table.observeAll more :=
  List.foldlM_append

theorem declareAll_eq (table : SymbolTable) (names : List String) (line : Nat) :
    table.declareAll line names = table.observeAll (names.map (.declare · line)) := by
  induction names generalizing table with
  | nil => rfl
  | cons name names ih =>
      simp only [declareAll, observeAll, List.map_cons, List.foldlM_cons, observe]
      obtain ⟨isNew, after⟩ := table.declare name
      cases isNew with
      | false => rfl
      | true => exact ih after

end SymbolTable

open SymbolTable

/-- The check of an expression leaves the table as it is. -/
theorem Expr.check_eq (expr : Expr) (table : SymbolTable) :
    (do expr.check table; return table) = table.observeAll expr.scopeEvents := by
  induction expr with
  | const value line => rfl
  | var name line => simp [check, scopeEvents, observeAll, observe]
  | unary op operand line ih => exact ih
  | binary op left right line ihl ihr =>
      simp only [check, scopeEvents, observeAll_append, bind_assoc, ihr, ← ihl, pure_bind]

mutual

theorem Statement.check_eq (statement : Statement) (table : SymbolTable) :
    statement.check table = table.observeAll statement.scopeEvents := by
  cases statement with
  | declare names line => exact table.declareAll_eq names line
  | assign target value line =>
      simp only [Statement.check, Statement.scopeEvents, value.check_eq]
      simp [observeAll, observe]
  | print value line => exact value.check_eq table
  | loop condition body line =>
      simp only [Statement.check, Statement.scopeEvents, observeAll_append, ← condition.check_eq,
        bind_assoc, pure_bind, Block.check_eq body]
  | branch condition whenTrue whenFalse line =>
      simp only [Statement.check, Statement.scopeEvents, observeAll_append, ← condition.check_eq,
        bind_assoc, pure_bind, Block.check_eq whenTrue, Block.check_eq whenFalse]
termination_by sizeOf statement

theorem Block.check_eq (statements : List Statement) (table : SymbolTable) :
    Block.check table statements = table.observeAll (Block.scopeEvents statements) := by
  cases statements with
  | nil => rfl
  | cons statement rest =>
      simp only [Block.check, Block.scopeEvents, observeAll_append, statement.check_eq,
        Block.check_eq rest]
termination_by sizeOf statements

end

namespace ScopeEvent

variable {events more : List ScopeEvent} {event other : ScopeEvent} {error error' : ScopeError}

/-- Whether an event breaks a rule is not up to what comes later. -/
theorem violatesAt_append {place : Nat} (inside : place < events.length) :
    ViolatesAt (events ++ more) place event ↔ ViolatesAt events place event := by
  have here : (events ++ more)[place]? = events[place]? := List.getElem?_append_left inside
  have before : (events ++ more).take place = events.take place :=
    List.take_append_of_le_length (Nat.le_of_lt inside)
  constructor
  · rintro ⟨there, violates⟩
    exact ⟨here ▸ there, before ▸ violates⟩
  · rintro ⟨there, violates⟩
    exact ⟨here.trans there, before.symm ▸ violates⟩

theorem Lawful.snoc (lawful : Lawful events) (allowed : ¬ event.Violates events) :
    Lawful (events ++ [event]) := by
  intro place other violatesAt
  by_cases inside : place < events.length
  · exact lawful place other ((violatesAt_append inside).mp violatesAt)
  · have atEnd : place = events.length := by
      have bound := (List.getElem?_eq_some_iff.mp violatesAt.here).1
      simp only [List.length_append, List.length_singleton] at bound
      omega
    subst atEnd
    obtain ⟨here, violates⟩ := violatesAt
    obtain rfl : event = other := by simpa using here
    exact allowed (by simpa using violates)

theorem Lawful.firstViolation (lawful : Lawful events) (violates : event.Violates events) :
    FirstViolation (events ++ event :: more) event.error := by
  refine ⟨events.length, event, ⟨by simp, by simpa using violates⟩, rfl, ?_⟩
  intro earlier inside other violatesAt
  exact lawful earlier other ((violatesAt_append inside).mp violatesAt)

theorem FirstViolation.unique (first : FirstViolation events error)
    (firstOther : FirstViolation events error') : error = error' := by
  obtain ⟨place, event, violates, rfl, none⟩ := first
  obtain ⟨place', event', violates', rfl, none'⟩ := firstOther
  obtain rfl : place = place' := by
    apply Nat.le_antisymm
    · exact Nat.le_of_not_lt fun earlier => none place' earlier event' violates'
    · exact Nat.le_of_not_lt fun earlier => none' place earlier event violates
  have same := violates.here.symm.trans violates'.here
  rw [Option.some.inj same]

end ScopeEvent

namespace SymbolTable

/-- The table lists the names that the events declare. -/
structure Lists (table : SymbolTable) (events : List ScopeEvent) : Prop where
  valid : table.Valid
  listed : table.toList = declared events

variable {table : SymbolTable} {before : List ScopeEvent} {event : ScopeEvent}

theorem Lists.contains_iff (lists : table.Lists before) (name : String) :
    table.contains name ↔ name ∈ declared before := by
  rw [lists.valid.contains_iff, lists.listed]

/-- An event that keeps the rules is taken notice of. -/
theorem Lists.observe (lists : table.Lists before) (allowed : ¬ event.Violates before) :
    ∃ after, table.observe event = .ok after ∧ after.Lists (before ++ [event]) := by
  cases event with
  | declare name line =>
      have fresh : ¬ table.contains name := by
        rw [lists.contains_iff]
        exact allowed
      obtain ⟨after, once⟩ := declare_of_not_contains fresh
      obtain ⟨valid, listed⟩ := lists.valid.declare once
      refine ⟨after, by simp [SymbolTable.observe, declareAll, once], valid, ?_⟩
      rw [listed, lists.listed, declared_append]
      rfl
  | use name line =>
      have known : table.contains name := by
        rw [lists.contains_iff]
        exact Decidable.of_not_not allowed
      have passes : table.require name line = .ok () := if_pos known
      refine ⟨table, by rw [SymbolTable.observe, passes]; rfl, lists.valid, ?_⟩
      rw [lists.listed, declared_append]
      exact (List.append_nil _).symm

/-- An event that breaks a rule ends the check. -/
theorem Lists.refuse (lists : table.Lists before) (violates : event.Violates before) :
    table.observe event = .error event.error := by
  cases event with
  | declare name line =>
      have known : table.contains name := (lists.contains_iff name).mpr violates
      simp [SymbolTable.observe, declareAll, declare_of_contains known, ScopeEvent.error]
  | use name line =>
      have unknown : ¬ table.contains name := by
        rw [lists.contains_iff]
        exact violates
      have refuses : table.require name line = .error (ScopeEvent.use name line).error :=
        if_neg unknown
      rw [SymbolTable.observe, refuses]
      rfl

/-- What the check makes of all events. -/
inductive Outcome (events : List ScopeEvent) : Except ScopeError SymbolTable → Prop where
  | table {after : SymbolTable} :
      after.Lists events →
      Lawful events →
      Outcome events (.ok after)
  | violation {error : ScopeError} :
      FirstViolation events error →
      Outcome events (.error error)

theorem Lists.observeAll (lists : table.Lists before) (lawful : Lawful before)
    (events : List ScopeEvent) : Outcome (before ++ events) (table.observeAll events) := by
  -- The events that have been taken notice of move from one list to the other.
  induction events generalizing table before with
  | nil =>
      rw [List.append_nil]
      exact .table lists lawful
  | cons event events ih =>
      simp only [SymbolTable.observeAll, List.foldlM_cons]
      by_cases violates : event.Violates before
      · rw [lists.refuse violates]
        exact .violation (lawful.firstViolation violates)
      · obtain ⟨after, observed, lists⟩ := lists.observe violates
        rw [observed, List.append_cons]
        exact ih lists (lawful.snoc violates)

theorem Valid.nodup (valid : table.Valid) : table.toList.Nodup := by
  apply List.pairwise_iff_getElem.mpr
  intro first second inFirst inSecond earlier same
  have found : ∀ (position : Nat) (inside : position < table.toList.length),
      table.index[table.toList[position]]? = some position := by
    intro position inside
    rw [valid, ← Array.getElem?_toList]
    exact List.getElem?_eq_getElem inside
  have foundFirst := found first inFirst
  rw [same, found second inSecond] at foundFirst
  have samePlace := Option.some.inj foundFirst
  omega

end SymbolTable

namespace ScopeEvent

/-- No name is declared twice, and each use of a name comes after its declaration. -/
structure WellScoped (events : List ScopeEvent) : Prop where
  once : (declared events).Nodup
  before : ∀ place name line, events[place]? = some (.use name line) →
    name ∈ declared (events.take place)

variable {events : List ScopeEvent}

theorem WellScoped.lawful (wellScoped : WellScoped events) : Lawful events := by
  rintro place event ⟨here, violates⟩
  cases event with
  | declare name line =>
      obtain ⟨inside, found⟩ := List.getElem?_eq_some_iff.mp here
      have split : events = events.take place ++ .declare name line :: events.drop (place + 1) := by
        rw [← found, List.getElem_cons_drop, List.take_append_drop]
      have once := wellScoped.once
      rw [split, declared_append] at once
      exact (List.nodup_append.mp once).2.2 name violates name List.mem_cons_self rfl
  | use name line => exact violates (wellScoped.before place name line here)

theorem Lawful.wellScoped (lawful : Lawful events) (once : (declared events).Nodup) :
    WellScoped events := by
  refine ⟨once, ?_⟩
  intro place name line here
  apply Decidable.of_not_not
  intro violates
  exact lawful place _ ⟨here, violates⟩

end ScopeEvent

theorem Program.check_outcome (program : Program) :
    Outcome (Block.scopeEvents program) program.check := by
  have empty : Lists {} [] := ⟨valid_empty, rfl⟩
  have lawful : Lawful [] := by
    rintro place event ⟨here, _⟩
    simp at here
  rw [Program.check, Block.check_eq]
  exact empty.observeAll lawful _

/-- The check succeeds if no name is declared twice and each is used only after its declaration. Its
    table then lists the declared names in order, as the code of the program declares them too.
    Otherwise the first event that breaks a rule is reported. -/
theorem scope_check_reports_the_first_violation (program : Program) :
    ((∃ symbols, program.check = .ok symbols) ↔ WellScoped (Block.scopeEvents program)) ∧
    (∀ symbols, program.check = .ok symbols →
      symbols.toList = declared (Block.scopeEvents program)) ∧
    program.lower.code.declared = declared (Block.scopeEvents program) ∧
    ∀ error, program.check = .error error ↔
      FirstViolation (Block.scopeEvents program) error := by
  have sameNames : program.lower.code.declared = declared (Block.scopeEvents program) := by
    rw [Block.scopeEvents_declared]
    exact Block.lower_declared program {}
  have outcome := program.check_outcome
  cases checked : program.check with
  | ok symbols =>
      rw [checked] at outcome
      cases outcome with
      | table lists lawful =>
          have once : (declared (Block.scopeEvents program)).Nodup :=
            lists.listed ▸ lists.valid.nodup
          refine ⟨?_, ?_, sameNames, ?_⟩
          · simp [lawful.wellScoped once]
          · intro other same
            cases same
            exact lists.listed
          · intro error
            constructor
            · intro impossible
              cases impossible
            · rintro ⟨place, event, violatesAt, _⟩
              exact absurd violatesAt (lawful place event)
  | error error =>
      rw [checked] at outcome
      cases outcome with
      | violation first =>
          refine ⟨?_, ?_, sameNames, ?_⟩
          · obtain ⟨place, event, violatesAt, _⟩ := first
            simp only [reduceCtorEq, exists_false, false_iff]
            intro wellScoped
            exact wellScoped.lawful place event violatesAt
          · intro symbols impossible
            cases impossible
          · intro other
            rw [Except.error.injEq]
            constructor
            · rintro rfl
              exact first
            · exact first.unique

/-- In `int x, y; while(x){x = y;}` each name is declared before it is used. -/
theorem loop_over_two_names_is_well_scoped :
    ∃ (program : Program) (symbols : SymbolTable),
      Block.scopeEvents program =
        [.declare "x" 1, .declare "y" 1, .use "x" 2, .use "x" 2, .use "y" 2] ∧
      program.check = .ok symbols ∧ symbols.toList = ["x", "y"] := by
  let program : Program :=
    [.declare ["x", "y"] 1, .loop (.var "x" 2) [.assign "x" (.var "y" 2) 2] 2]
  have wellScoped : WellScoped (Block.scopeEvents program) := by
    refine ⟨by decide, ?_⟩
    intro place name line here
    match place with
    | 0 | 1 => cases here
    | 2 | 3 | 4 => cases here; decide
  obtain ⟨accepted, listed, _, _⟩ := scope_check_reports_the_first_violation program
  obtain ⟨symbols, checked⟩ := accepted.mpr wellScoped
  exact ⟨program, symbols, rfl, checked, listed symbols checked⟩

end TinyImp
