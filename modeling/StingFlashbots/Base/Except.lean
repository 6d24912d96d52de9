import Mathlib.Init

/-
  Computations that may fail.

  Main declarations:
    * `bind_eq_ok`
    * `ok_bind`
    * `error_bind`
-/

variable {ε α β : Type}

/- A sequence succeeds when both parts do. -/
theorem bind_eq_ok
    {x : Except ε α}
    {f : α → Except ε β}
    {b : β} :
    (x >>= f) = .ok b ↔
      ∃ a, x = .ok a ∧ f a = .ok b := by
  cases x with
  | error e => simp [bind, Except.bind]
  | ok a => simp [bind, Except.bind]

@[simp] theorem ok_bind
    (a : α)
    (f : α → Except ε β) :
    ((.ok a : Except ε α) >>= f) = f a := rfl

@[simp] theorem error_bind
    (e : ε)
    (f : α → Except ε β) :
    ((.error e : Except ε α) >>= f) = .error e := rfl
