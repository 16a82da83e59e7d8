/-! # When a computation succeeds or fails

One equivalence for each way in which a computation that may fail is put together.
-/

namespace TinyImp.Except

variable {ε ε' α β : Type}

theorem bind_eq_ok_iff {x : Except ε α} {f : α → Except ε β} {b : β} :
    (x >>= f) = .ok b ↔ ∃ a, x = .ok a ∧ f a = .ok b := by
  cases x with
  | error refused => simp [bind, Except.bind]
  | ok a => simp [bind, Except.bind]

theorem bind_eq_error_iff {x : Except ε α} {f : α → Except ε β} {error : ε} :
    (x >>= f) = .error error ↔ x = .error error ∨ ∃ a, x = .ok a ∧ f a = .error error := by
  cases x with
  | error refused => simp [bind, Except.bind]
  | ok a => simp [bind, Except.bind]

theorem mapError_eq_ok_iff {x : Except ε α} {f : ε → ε'} {a : α} :
    x.mapError f = .ok a ↔ x = .ok a := by
  cases x with
  | error refused => constructor <;> intro impossible <;> cases impossible
  | ok b => constructor <;> intro same <;> cases same <;> rfl

theorem mapError_eq_error_iff {x : Except ε α} {f : ε → ε'} {error : ε'} :
    x.mapError f = .error error ↔ ∃ refused, x = .error refused ∧ error = f refused := by
  cases x with
  | error refused =>
      constructor
      · intro same
        cases same
        exact ⟨refused, rfl, rfl⟩
      · intro ⟨_, same, isImage⟩
        cases same
        rw [isImage]
        rfl
  | ok b =>
      constructor
      · intro impossible
        cases impossible
      · intro ⟨_, impossible, _⟩
        cases impossible

end TinyImp.Except
