import TinyImp.Value
import Std.Data.ExtTreeMap

/-! # Stores

A store holds the value of each variable that exists. Two stores are equal when they hold the same
values, and the small lemmas say what each operation does to the values held.
-/

namespace TinyImp

/-- The variables that exist, with their values. -/
structure Store where
  bindings : Std.ExtTreeMap String Value := ∅

namespace Store

def get? (store : Store) (name : String) : Option Value :=
  store.bindings[name]?

/-- Bring a variable into existence with value zero. One that exists keeps its value. -/
def declare (store : Store) (name : String) : Store :=
  { bindings := store.bindings.insertIfNew name 0 }

def declareAll (store : Store) (names : List String) : Store :=
  names.foldl declare store

/-- Change the value of a variable that exists. -/
def assign? (store : Store) (name : String) (value : Value) : Option Store :=
  match store.get? name with
  | some _ => some { bindings := store.bindings.insert name value }
  | none => none

/-- Change the value of a variable, which must exist. -/
def assign (store : Store) (name : String) (value : Value) : Except RuntimeFault Store :=
  match store.assign? name value with
  | some after => .ok after
  | none => .error (.unboundVariable name)

/-- A store is determined by the values it holds. -/
@[ext]
theorem ext {left right : Store} (agree : ∀ name, left.get? name = right.get? name) :
    left = right := by
  cases left
  cases right
  simpa using Std.ExtTreeMap.ext_getElem? agree

theorem get?_declare (store : Store) (name other : String) :
    (store.declare name).get? other =
      if name = other then some ((store.get? name).getD 0) else store.get? other := by
  simp only [get?, declare, Std.ExtTreeMap.getElem?_insertIfNew]
  by_cases same : name = other
  · subst same
    by_cases bound : name ∈ store.bindings <;> simp [bound]
  · simp [same]

theorem assign?_eq_none_iff {store : Store} {name : String} {value : Value} :
    store.assign? name value = none ↔ store.get? name = none := by
  cases found : store.get? name <;> simp [assign?, found]

theorem get?_of_assign? {store after : Store} {name : String} {value : Value}
    (assigned : store.assign? name value = some after) (other : String) :
    after.get? other = if name = other then some value else store.get? other := by
  cases found : store.get? name with
  | none => simp [assign?, found] at assigned
  | some previous =>
      simp only [assign?, found, Option.some.injEq] at assigned
      subst assigned
      simp [get?, Std.ExtTreeMap.getElem?_insert]

end Store

end TinyImp
