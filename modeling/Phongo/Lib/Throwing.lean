import Mathlib.Tactic.Common

/-! Computations that may throw. -/
namespace Throwing

variable {ε α β : Type}

theorem bind_eq_ok {x : Except ε α} {f : α → Except ε β} {b : β} :
    (x >>= f) = .ok b ↔ ∃ a, x = .ok a ∧ f a = .ok b := by
  cases x with
  | error e => simp [bind,Except.bind]
  | ok a => simp [bind,Except.bind]

/-- It throws, whatever it throws. -/
def Fails (x : Except ε α) : Prop := ∃ e, x = .error e

theorem fails_bind {x : Except ε α} {f : α → Except ε β} :
    Fails (x >>= f) ↔ Fails x ∨ ∃ a, x = .ok a ∧ Fails (f a) := by
  cases x with
  | error e => simp [Fails,bind,Except.bind]
  | ok a => simp [Fails,bind,Except.bind]

theorem fails_bind_right (x : Except ε α) {f : α → Except ε β} (h : ∀ a, Fails (f a)) :
    Fails (x >>= f) := by
  cases x with
  | error e => exact ⟨e,rfl⟩
  | ok a => exact h a

end Throwing
