import TinyImp.Value

/-! # Runs

A program is run by repeating a step. What can be seen of a run are its events, in order, and how it
ends; a run that never ends is seen through its finite beginnings.
-/

namespace TinyImp

/-- What can be seen of a run. -/
inductive Event where
  | assigned (name : String) (value : Value)
  | printed (value : Value)
  deriving Repr, DecidableEq

def Event.printed? : Event → Option Value
  | .assigned _ _ => none
  | .printed value => some value

/-- What a state does next. -/
inductive Step (σ : Type) where
  /-- Nothing is left to do. -/
  | finish
  /-- The run cannot go on. What the step has done up to its failure remains. -/
  | fail (error : RuntimeError) (event : Option Event) (state : σ)
  /-- Go on from another state, perhaps with an event. -/
  | next (event : Option Event) (state : σ)

/-- The same step of a larger state. -/
def Step.map {σ τ : Type} (f : σ → τ) : Step σ → Step τ
  | .finish => .finish
  | .fail error event state => .fail error event (f state)
  | .next event state => .next event (f state)

/-- A state in the course of a step, and the event that has been shown in that step. -/
structure Ongoing (σ : Type) where
  state : σ
  event : Option Event := none

/-- What is done to a state in the course of a step. If it fails halfway, what it has done by then is
    not undone. -/
abbrev Action (ε σ : Type) := EStateM ε (Ongoing σ)

namespace Action

variable {ε σ τ α : Type}

/-- Find something in the state, without changing it. -/
def look (view : σ → Except ε α) : Action ε σ α := do
  liftExcept (view (← get).state)

def alter (change : σ → σ) : Action ε σ Unit :=
  modify fun ongoing => { ongoing with state := change ongoing.state }

def emit (event : Event) : Action ε σ Unit :=
  modify fun ongoing => { ongoing with event := some event }

/-- The step that an action is. `report` makes an error of a failure, `leave` the state that a failure
    leaves behind, and `resume` the state to go on from. -/
def step (action : Action ε σ α) (state : σ) (report : ε → RuntimeError) (leave : σ → τ)
    (resume : α → σ → τ) : Step τ :=
  match action.run { state } with
  | .ok a ongoing => .next ongoing.event (resume a ongoing.state)
  | .error failure ongoing => .fail (report failure) ongoing.event (leave ongoing.state)

end Action

/-- How far a run has come. -/
inductive Status where
  | running
  | finished
  | failed (error : RuntimeError)
  deriving Repr, DecidableEq

/-- A state, the events on the way to it, and whether the run has ended there. -/
structure Run (σ : Type) where
  state : σ
  events : Array Event := #[]
  status : Status := .running

namespace Run

/-- The run in another state, after another event if there is one. -/
def proceed {σ : Type} (run : Run σ) (event : Option Event) (state : σ) : Run σ :=
  match event with
  | none => { run with state }
  | some event => { run with state, events := run.events.push event }

/-- One more step. A run that has ended stays as it is. -/
def advance {σ : Type} (step : σ → Step σ) (run : Run σ) : Run σ :=
  match run.status with
  | .running =>
      match step run.state with
      | .finish => { run with status := .finished }
      | .fail error event state => { run.proceed event state with status := .failed error }
      | .next event state => run.proceed event state
  | _ => run

def after {σ : Type} (step : σ → Step σ) (run : Run σ) : Nat → Run σ
  | 0 => run
  | steps + 1 => after step (run.advance step) steps

def printed {σ : Type} (run : Run σ) : List Value :=
  run.events.toList.filterMap Event.printed?

end Run

end TinyImp
