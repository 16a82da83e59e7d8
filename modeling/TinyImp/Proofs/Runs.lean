import TinyImp.Proofs.Actions

/-! # Runs that look alike

A run is seen through its events, through how it ends, and through the variables it leaves behind.
Two engines are equivalent if nothing of this tells them apart. A simulation relates the states of
two engines so that the second repeats what the first does, in any number of steps of its own; it is
enough for equivalence, because a step of an engine has one result at most.
-/

namespace TinyImp

/-- An exact number of steps, none of which ends the run, and the events on the way. -/
inductive Steps {σ : Type} (step : σ → Step σ) : Nat → σ → List Event → σ → Prop where
  | refl (state : σ) : Steps step 0 state [] state
  | head {n : Nat} {state after last : σ} {event : Option Event} {events : List Event} :
      step state = .next event after → Steps step n after events last →
      Steps step (n + 1) state (event.toList ++ events) last

/-- The status in which a step leaves a run, if it ends the run. -/
def Step.ended? {σ : Type} : Step σ → Option Status
  | .finish => some .finished
  | .fail error _ _ => some (.failed error)
  | .next _ _ => none

theorem Step.ended?_eq_none {σ : Type} {step : Step σ} (goes : step.ended? = none) :
    ∃ event after, step = .next event after := by
  cases step with
  | finish | fail error event left => simp [Step.ended?] at goes
  | next event after => exact ⟨event, after, rfl⟩

theorem Step.Atomic.of_ended?_eq_failed {σ : Type} {step : σ → Step σ} {state : σ}
    {error : RuntimeError} (atomic : Step.Atomic step)
    (fails : (step state).ended? = some (.failed error)) : step state = .fail error none state := by
  cases taken : step state with
  | finish | next event after => simp [taken, Step.ended?] at fails
  | fail other event left =>
      obtain ⟨rfl, rfl⟩ := atomic state other event left taken
      simp only [taken, Step.ended?, Option.some.injEq, Status.failed.injEq] at fails
      rw [fails]

/-- What the step leads to is good, whether the run goes on there or has failed. -/
def Step.Leads {σ : Type} (good : σ → Prop) : Step σ → Prop
  | .finish => True
  | .fail _ _ after | .next _ after => good after

namespace Step.Leads

variable {σ τ α : Type} {good : σ → Prop}

theorem given {state : σ} {result : Except RuntimeError α} {proceed : α → Step σ}
    (start : good state) (goesOn : ∀ a, (proceed a).Leads good) :
    (Step.given state result proceed).Leads good := by
  cases result with
  | ok a => exact goesOn a
  | error error => exact start

theorem map {larger : τ → Prop} {step : Step σ} {f : σ → τ} (leads : step.Leads good)
    (keeps : ∀ state, good state → larger (f state)) : (step.map f).Leads larger := by
  cases step with
  | finish => trivial
  | fail error event after | next event after => exact keeps after leads

end Step.Leads

namespace Steps

variable {σ : Type} {step : σ → Step σ} {m n : Nat} {a b c : σ} {events more : List Event}

theorem one {event : Option Event} (first : step a = .next event b) :
    Steps step 1 a event.toList b := by
  simpa using Steps.head first (Steps.refl b)

theorem trans (first : Steps step m a events b) (second : Steps step n b more c) :
    Steps step (m + n) a (events ++ more) c := by
  induction first with
  | refl state => simpa using second
  | @head k _ _ _ _ _ moves _ ih =>
      rw [Nat.add_right_comm, List.append_assoc]
      exact .head moves (ih second)

/-- Both the events and the state are determined by the number of steps. -/
theorem deterministic (left : Steps step n a events b) (right : Steps step n a more c) :
    events = more ∧ b = c := by
  induction left generalizing more with
  | refl state => cases right; exact ⟨rfl, rfl⟩
  | head moves _ ih =>
      cases right with
      | head moves' rest' =>
          rw [moves] at moves'
          cases moves'
          obtain ⟨rfl, rfl⟩ := ih rest'
          exact ⟨rfl, rfl⟩

theorem split (whole : Steps step (m + n) a events c) :
    ∃ first middle last, Steps step m a first middle ∧ Steps step n middle last c ∧
      events = first ++ last := by
  induction m generalizing a events with
  | zero => exact ⟨[], a, events, .refl a, by simpa using whole, rfl⟩
  | succ m ih =>
      rw [Nat.add_right_comm] at whole
      cases whole with
      | head moves rest =>
          obtain ⟨first, middle, last, before, after, rfl⟩ := ih rest
          exact ⟨_, middle, last, .head moves before, after, by simp⟩

/-- No steps lead on from a state in which the run ends. -/
theorem not_beyond (longer : Steps step n a more c) (stops : Steps step m a events b)
    (ended : (step b).ended?.isSome) : n ≤ m := by
  apply Nat.le_of_not_lt
  intro later
  obtain ⟨k, rfl⟩ : ∃ k, n = m + (k + 1) := ⟨n - m - 1, by omega⟩
  obtain ⟨first, middle, last, before, after, -⟩ := longer.split
  obtain ⟨-, rfl⟩ := stops.deterministic before
  cases after with
  | head moves _ => simp [moves, Step.ended?] at ended

/-- Later steps only add events. -/
theorem extends_events (fewer : Steps step n a events b) (longer : Steps step m a more c)
    (le : n ≤ m) : ∃ rest, more = events ++ rest := by
  obtain ⟨k, rfl⟩ : ∃ k, m = n + k := ⟨m - n, by omega⟩
  obtain ⟨first, middle, last, before, -, rfl⟩ := longer.split
  obtain ⟨rfl, -⟩ := fewer.deterministic before
  exact ⟨last, rfl⟩

/-- Every beginning of the events is reached on the way, as a step adds one event at most. -/
theorem of_prefix (whole : Steps step n a (events ++ more) c) :
    ∃ k middle, Steps step k a events middle := by
  induction n generalizing a events with
  | zero =>
      generalize joined : events ++ more = all at whole
      cases whole
      obtain ⟨rfl, -⟩ := List.append_eq_nil_iff.mp joined
      exact ⟨0, c, .refl c⟩
  | succ n ih =>
      cases events with
      | nil => exact ⟨0, a, .refl a⟩
      | cons event events =>
          generalize joined : event :: events ++ more = all at whole
          cases whole with
          | @head _ _ after _ emitted _ moves rest =>
              cases emitted with
              | none =>
                  simp only [Option.toList_none, List.nil_append] at joined
                  subst joined
                  obtain ⟨k, middle, reached⟩ := ih rest
                  exact ⟨k + 1, middle, by simpa using Steps.head moves reached⟩
              | some emitted =>
                  simp only [Option.toList_some, List.cons_append, List.nil_append,
                    List.cons.injEq] at joined
                  obtain ⟨rfl, rfl⟩ := joined
                  obtain ⟨k, middle, reached⟩ := ih rest
                  exact ⟨k + 1, middle, by simpa using Steps.head moves reached⟩

/-- Steps of a part are steps of the whole. -/
theorem map {τ : Type} {outer : τ → Step τ} {f : σ → τ}
    (agree : ∀ state, outer (f state) = (step state).map f) (steps : Steps step n a events b) :
    Steps outer n (f a) events (f b) := by
  induction steps with
  | refl state => exact .refl _
  | head moves _ ih => exact .head (by rw [agree, moves]; rfl) ih

end Steps

namespace Run

variable {σ : Type} {step : σ → Step σ} {n : Nat} {a b : σ} {events : List Event}

@[simp]
theorem proceed_state (run : Run σ) (event : Option Event) (state : σ) :
    (run.proceed event state).state = state := by
  cases event <;> rfl

theorem advance_of_ended {run : Run σ} (ended : run.status ≠ .running) :
    run.advance step = run := by
  unfold advance
  split
  · contradiction
  · rfl

theorem after_of_ended {run : Run σ} (ended : run.status ≠ .running) (more : Nat) :
    run.after step more = run := by
  induction more with
  | zero => rfl
  | succ more ih => rw [after, advance_of_ended ended, ih]

theorem after_add (run : Run σ) (m n : Nat) :
    run.after step (m + n) = (run.after step m).after step n := by
  induction m generalizing run with
  | zero => rw [Nat.zero_add, after]
  | succ m ih => rw [Nat.add_right_comm, after, after, ih]

/-- What every step keeps, a whole run keeps. -/
theorem after_good {good : σ → Prop} (keeps : ∀ state, good state → (step state).Leads good)
    (run : Run σ) (start : good run.state) (steps : Nat) : good (run.after step steps).state := by
  induction steps generalizing run with
  | zero => exact start
  | succ steps ih =>
      apply ih (run.advance step)
      have leads := keeps run.state start
      unfold advance
      split
      · cases taken : step run.state with
        | finish => exact start
        | fail error event after | next event after =>
            rw [taken] at leads
            simpa [Step.Leads] using leads
      · exact start

/-- A step that fails ends a run and changes nothing else. -/
theorem after_of_fail {run : Run σ} {error : RuntimeError} {event : Option Event} {left : σ}
    (atomic : Step.Atomic step) (running : run.status = .running)
    (fails : step run.state = .fail error event left) (more : Nat) :
    run.after step (1 + more) = { run with status := .failed error } := by
  obtain ⟨rfl, rfl⟩ := atomic _ _ _ _ fails
  have ended : run.advance step = { run with status := .failed error } := by
    simp only [advance, running, fails, proceed]
  rw [after_add, after, after, ended]
  apply after_of_ended
  simp

/-- What an unfinished number of steps makes of a run. -/
theorem after_of_steps (steps : Steps step n a events b) (seen : Array Event) (more : Nat) :
    Run.after step { state := a, events := seen } (n + more) =
      Run.after step { state := b, events := seen ++ events } more := by
  induction steps generalizing seen with
  | refl state => simp
  | @head k _ _ _ event _ moves _ ih =>
      rw [Nat.add_right_comm, after]
      cases event with
      | none => simpa [advance, proceed, moves] using ih seen
      | some event => simpa [advance, proceed, moves] using ih (seen.push event)

/-- What a run comes to that ends after a number of steps. -/
theorem after_of_ends {status : Status} (atomic : Step.Atomic step) (steps : Steps step n a events b)
    (ends : (step b).ended? = some status) (more : Nat) :
    Run.after step { state := a } (n + 1 + more) = { state := b, events := events.toArray, status } := by
  rw [Nat.add_assoc, after_of_steps steps]
  cases taken : step b with
  | next event next => simp [taken, Step.ended?] at ends
  | finish =>
      simp only [taken, Step.ended?, Option.some.injEq] at ends
      subst ends
      rw [Nat.add_comm 1 more, after]
      simp [advance, taken, after_of_ended]
  | fail error event left =>
      simp only [taken, Step.ended?, Option.some.injEq] at ends
      subst ends
      rw [after_of_fail atomic rfl taken more]
      simp

/-- A run is still under way, or it has ended after fewer steps. -/
theorem after_cases (atomic : Step.Atomic step) (a : σ) (n : Nat) :
    (∃ events b, Steps step n a events b ∧
      Run.after step { state := a } n = { state := b, events := events.toArray }) ∨
    (∃ m events b status, m < n ∧ Steps step m a events b ∧ (step b).ended? = some status ∧
      Run.after step { state := a } n = { state := b, events := events.toArray, status }) := by
  induction n with
  | zero => exact .inl ⟨[], a, .refl a, rfl⟩
  | succ n ih =>
      rcases ih with ⟨events, b, steps, -⟩ | ⟨m, events, b, status, fewer, steps, ends, -⟩
      · cases ended : (step b).ended? with
        | some status =>
            exact .inr ⟨n, events, b, status, by omega, steps, ended, after_of_ends atomic steps ended 0⟩
        | none =>
            obtain ⟨event, next, moves⟩ := Step.ended?_eq_none ended
            have longer := steps.trans (.one moves)
            exact .inl ⟨_, next, longer, by simpa [after] using after_of_steps longer #[] 0⟩
      · obtain ⟨more, rfl⟩ : ∃ more, n = m + 1 + more := ⟨n - (m + 1), by omega⟩
        exact .inr ⟨m, events, b, status, by omega, steps, ends,
          after_of_ends atomic steps ends (more + 1)⟩

end Run

/-- How a run ends, apart from the place of a fault. -/
inductive Ending where
  | finished
  | failed (fault : RuntimeFault)
  deriving Repr, DecidableEq

/-- The ending of a run that has ended. -/
def Status.ending? : Status → Option Ending
  | .running => none
  | .finished => some .finished
  | .failed error => some (.failed error.fault)

namespace Engine

/-- The run of an engine after a number of steps. -/
def run (engine : Engine) (steps : Nat) : Run Engine :=
  Run.after Engine.step { state := engine } steps

/-- The run ends after these events, in this way and with these variables. -/
def Ends (engine : Engine) (events : List Event) (ending : Ending) (store : Store) : Prop :=
  ∃ steps, (engine.run steps).events.toList = events ∧
    (engine.run steps).status.ending? = some ending ∧ (engine.run steps).state.store = store

/-- The run goes on forever. -/
def Diverges (engine : Engine) : Prop :=
  ∀ steps, (engine.run steps).status = .running

/-- Nothing that can be seen of their runs tells the engines apart. -/
structure Equivalent (left right : Engine) : Prop where
  /-- One ends if the other does: after the same events, in the same way, with the same variables. -/
  ends : ∀ events ending store, left.Ends events ending store ↔ right.Ends events ending store
  /-- One goes on forever if the other does. -/
  diverges : left.Diverges ↔ right.Diverges
  /-- The events that one has shown at some time, the other has shown at some time, and no others. -/
  events : ∀ events, (∃ steps, (left.run steps).events.toList = events) ↔
    ∃ steps, (right.run steps).events.toList = events

variable {engine : Engine} {events : List Event} {ending : Ending} {store : Store}

theorem ends_iff : engine.Ends events ending store ↔
    ∃ n last status, Steps Engine.step n engine events last ∧ last.step.ended? = some status ∧
      status.ending? = some ending ∧ last.store = store := by
  constructor
  · rintro ⟨n, seen, ended, stored⟩
    rcases Run.after_cases Engine.step_atomic engine n with
      ⟨_, _, -, same⟩ | ⟨m, events', last, status, -, steps, ends, same⟩
    · simp [run, same, Status.ending?] at ended
    · simp only [run, same] at seen ended stored
      exact ⟨m, last, status, seen ▸ steps, ends, ended, stored⟩
  · rintro ⟨n, last, status, steps, ends, ended, stored⟩
    have same := Run.after_of_ends Engine.step_atomic steps ends 0
    exact ⟨n + 1, by simp [run, same], by simpa [run, same] using ended,
      by simpa [run, same] using stored⟩

theorem seen_iff : (∃ n, (engine.run n).events.toList = events) ↔
    ∃ n last, Steps Engine.step n engine events last := by
  constructor
  · rintro ⟨n, seen⟩
    rcases Run.after_cases Engine.step_atomic engine n with
      ⟨_, last, steps, same⟩ | ⟨m, _, last, _, -, steps, -, same⟩
    · simp only [run, same] at seen
      exact ⟨n, last, seen ▸ steps⟩
    · simp only [run, same] at seen
      exact ⟨m, last, seen ▸ steps⟩
  · rintro ⟨n, last, steps⟩
    exact ⟨n, by simpa [run, Run.after] using congrArg (·.events.toList) (Run.after_of_steps steps #[] 0)⟩

/-- A run that has failed has come to a state whose step fails, and stays there. -/
theorem step_of_failed {n : Nat} {error : RuntimeError}
    (failed : (engine.run n).status = .failed error) :
    ∃ m events last, m < n ∧ Steps Engine.step m engine events last ∧ last.step = .fail error none last ∧
      engine.run n = { state := last, events := events.toArray, status := .failed error } := by
  rcases Run.after_cases Engine.step_atomic engine n with
    ⟨_, _, -, same⟩ | ⟨m, events, last, status, fewer, taken, ends, same⟩
  · simp [run, same] at failed
  · simp only [run, same] at failed
    subst failed
    exact ⟨m, events, last, fewer, taken, Engine.step_atomic.of_ended?_eq_failed ends, same⟩

/-- A run that has failed is what it was before the step that failed, but for its status. -/
theorem run_of_failed {n : Nat} {error : RuntimeError}
    (failed : (engine.run n).status = .failed error) :
    ∃ m, m < n ∧ (engine.run m).status = .running ∧ 
      (engine.run m).state.step = .fail error none (engine.run m).state ∧
      engine.run n = { engine.run m with status := .failed error } := by
  obtain ⟨m, events, last, fewer, taken, fails, same⟩ := step_of_failed failed
  have before : engine.run m = { state := last, events := events.toArray } := by
    simpa [run, Run.after] using Run.after_of_steps taken #[] 0
  exact ⟨m, fewer, by rw [before], by rw [before, fails], by rw [same, before]⟩

/-- The run of a walk keeps what each step of a walk keeps. -/
theorem run_tree {good : Walk → Prop} (keeps : ∀ walk, good walk → walk.step.Leads good)
    {walk : Walk} (start : good walk) (steps : Nat) :
    ∃ walk', ((Engine.tree walk).run steps).state = .tree walk' ∧ good walk' := by
  have stays : ∀ engine : Engine, (∃ walk, engine = .tree walk ∧ good walk) →
      engine.step.Leads fun after => ∃ walk, after = .tree walk ∧ good walk := by
    intro engine ⟨walk, isTree, here⟩
    subst isTree
    exact (keeps walk here).map fun after good => ⟨after, rfl, good⟩
  exact Run.after_good stays _ ⟨walk, rfl, start⟩ steps

/-- A run of code stays a run of that code. -/
theorem run_code (routine : Routine) (execution : Execution) (steps : Nat) :
    ∃ execution', ((Engine.code routine execution).run steps).state = .code routine execution' := by
  have stays : ∀ engine : Engine, (∃ execution, engine = .code routine execution) →
      engine.step.Leads fun after => ∃ execution, after = .code routine execution := by
    intro engine ⟨execution, isCode⟩
    subst isCode
    have anywhere : (execution.step routine).Leads fun _ => True := by
      cases execution.step routine <;> trivial
    exact anywhere.map fun after _ => ⟨after, rfl⟩
  exact Run.after_good stays _ ⟨execution, rfl⟩ steps

theorem diverges_iff : engine.Diverges ↔ ∀ events ending store, ¬ engine.Ends events ending store := by
  constructor
  · rintro forever events ending store ⟨n, -, ended, -⟩
    simp [forever n, Status.ending?] at ended
  · intro endless n
    cases status : (engine.run n).status with
    | running => rfl
    | finished => exact absurd ⟨n, rfl, by rw [status]; rfl, rfl⟩ (endless _ .finished _)
    | failed error => exact absurd ⟨n, rfl, by rw [status]; rfl, rfl⟩ (endless _ (.failed error.fault) _)

end Engine

/-- The second of two related engines repeats what the first does, and ends alike. It may make no
    step of its own only if the first one becomes smaller. -/
structure Simulation (related : Engine → Engine → Prop) (alike : Status → Status → Prop)
    (size : Engine → Nat) : Prop where
  next : ∀ {a b event after}, related a b → a.step = .next event after →
    ∃ n c, Steps Engine.step n b event.toList c ∧ related after c ∧ (n = 0 → size after < size a)
  ended : ∀ {a b status}, related a b → a.step.ended? = some status →
    ∃ n c status', Steps Engine.step n b [] c ∧ c.step.ended? = some status' ∧
      alike status status' ∧ c.store = a.store

namespace Simulation

variable {related : Engine → Engine → Prop} {alike : Status → Status → Prop} {size : Engine → Nat}
  {a b last : Engine} {n : Nat} {events : List Event}

theorem steps (simulation : Simulation related alike size) (pair : related a b)
    (taken : Steps Engine.step n a events last) :
    ∃ m c, Steps Engine.step m b events c ∧ related last c := by
  induction taken generalizing b with
  | refl state => exact ⟨0, b, .refl b, pair⟩
  | head moves _ ih =>
      obtain ⟨k, middle, first, pair, -⟩ := simulation.next pair moves
      obtain ⟨m, c, rest, pair⟩ := ih pair
      exact ⟨k + m, c, first.trans rest, pair⟩

/-- The end of the first run is also reached by the second. -/
theorem reaches_end (simulation : Simulation related alike size) (pair : related a b)
    (taken : Steps Engine.step n a events last) {status : Status}
    (ended : last.step.ended? = some status) :
    ∃ m c status', Steps Engine.step m b events c ∧ c.step.ended? = some status' ∧
      alike status status' ∧ c.store = last.store := by
  obtain ⟨k, middle, first, pair⟩ := simulation.steps pair taken
  obtain ⟨m, c, status', rest, ended', similar, stored⟩ := simulation.ended pair ended
  exact ⟨k + m, c, status', by simpa using first.trans rest, ended', similar, stored⟩

/-- Unless the first run ends, the second makes a step: sizes cannot decrease forever. -/
theorem progress (simulation : Simulation related alike size) (pair : related a b) :
    (∃ n events last, Steps Engine.step n a events last ∧ last.step.ended?.isSome) ∨
    (∃ n m events last c, Steps Engine.step n a events last ∧
      Steps Engine.step (m + 1) b events c ∧ related last c) := by
  induction small : size a using Nat.strongRecOn generalizing a b with
  | ind bound ih =>
      cases taken : a.step.ended? with
      | some status => exact .inl ⟨0, [], a, .refl a, by simp [taken]⟩
      | none =>
          obtain ⟨event, after, moves⟩ := Step.ended?_eq_none taken
          obtain ⟨k, middle, first, pair, smaller⟩ := simulation.next pair moves
          cases k with
          | succ k => exact .inr ⟨1, k, _, after, middle, .one moves, first, pair⟩
          | zero =>
              have fewer : size after < bound := small ▸ smaller rfl
              rcases ih _ fewer pair rfl with
                ⟨n, events, last, rest, ended⟩ | ⟨n, m, events, last, c, rest, rest', pair⟩
              · exact .inl ⟨n + 1, _, last, .head moves rest, ended⟩
              · have whole := first.trans rest'
                rw [Nat.zero_add] at whole
                exact .inr ⟨n + 1, m, _, last, c, .head moves rest, whole, pair⟩

/-- Unless the first run ends, the second makes any number of steps. -/
theorem unbounded (simulation : Simulation related alike size) (pair : related a b) (bound : Nat) :
    (∃ n events last, Steps Engine.step n a events last ∧ last.step.ended?.isSome) ∨
    (∃ n m events last c, bound ≤ m ∧ Steps Engine.step n a events last ∧
      Steps Engine.step m b events c ∧ related last c) := by
  induction bound with
  | zero => exact .inr ⟨0, 0, [], a, b, Nat.le_refl 0, .refl a, .refl b, pair⟩
  | succ bound ih =>
      rcases ih with ends | ⟨n, m, events, last, c, far, taken, taken', pair⟩
      · exact .inl ends
      · rcases simulation.progress pair with
          ⟨k, more, final, rest, ended⟩ | ⟨k, l, more, final, c, rest, rest', pair⟩
        · exact .inl ⟨n + k, _, final, taken.trans rest, ended⟩
        · exact .inr ⟨n + k, m + (l + 1), _, final, c, by omega, taken.trans rest,
            taken'.trans rest', pair⟩

/-- The two runs show the same events, whether or not they end. -/
theorem seen (simulation : Simulation related alike size) (pair : related a b)
    (events : List Event) :
    (∃ n, (a.run n).events.toList = events) ↔ ∃ n, (b.run n).events.toList = events := by
  rw [Engine.seen_iff, Engine.seen_iff]
  constructor
  · rintro ⟨n, last, taken⟩
    obtain ⟨m, c, taken', -⟩ := simulation.steps pair taken
    exact ⟨m, c, taken'⟩
  · rintro ⟨n, last, taken⟩
    rcases simulation.unbounded pair n with
      ⟨k, events', final, taken', stops⟩ | ⟨k, m, events', final, c, far, taken', taken'', -⟩
    · obtain ⟨status, ended⟩ := Option.isSome_iff_exists.mp stops
      obtain ⟨m, c, status', taken'', ended', -, -⟩ := simulation.reaches_end pair taken' ended
      have far : n ≤ m := taken.not_beyond taken'' (by simp [ended'])
      obtain ⟨more, rfl⟩ := taken.extends_events taken'' far
      exact taken'.of_prefix
    · obtain ⟨more, rfl⟩ := taken.extends_events taken'' far
      exact taken'.of_prefix

variable (simulation : Simulation related alike size)
  (similar : ∀ {status status'}, alike status status' → status.ending? = status'.ending?)
include simulation similar

theorem ends (pair : related a b) (events : List Event) (ending : Ending) (store : Store) :
    a.Ends events ending store ↔ b.Ends events ending store := by
  rw [Engine.ends_iff, Engine.ends_iff]
  constructor
  · rintro ⟨n, last, status, taken, ended, ending_eq, stored⟩
    obtain ⟨m, c, status', taken', ended', alike', stored'⟩ :=
      simulation.reaches_end pair taken ended
    exact ⟨m, c, status', taken', ended', similar alike' ▸ ending_eq, stored'.trans stored⟩
  · rintro ⟨n, last, status, taken, ended, ending_eq, stored⟩
    have stops : last.step.ended?.isSome := by simp [ended]
    rcases simulation.unbounded pair (n + 1) with
      ⟨k, events', final, taken', stops'⟩ | ⟨k, m, events', final, c, far, -, taken', -⟩
    · obtain ⟨status', ended'⟩ := Option.isSome_iff_exists.mp stops'
      obtain ⟨m, c, status'', taken'', ended'', alike', stored'⟩ :=
        simulation.reaches_end pair taken' ended'
      have same : m = n := Nat.le_antisymm (taken''.not_beyond taken stops)
        (taken.not_beyond taken'' (by simp [ended'']))
      subst same
      obtain ⟨rfl, rfl⟩ := taken.deterministic taken''
      obtain rfl : status = status'' := Option.some.inj (ended.symm.trans ended'')
      exact ⟨k, final, status', taken', ended', (similar alike').trans ending_eq,
        stored'.symm.trans stored⟩
    · have := taken'.not_beyond taken stops
      omega

theorem equivalent (pair : related a b) : a.Equivalent b where
  ends := simulation.ends similar pair
  diverges := by simp only [Engine.diverges_iff, simulation.ends similar pair]
  events := simulation.seen pair

end Simulation

end TinyImp
