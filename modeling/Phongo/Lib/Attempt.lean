import Mathlib.Tactic.Common

/-! Functions that tell failure by their return value, over a list of pending errors.
The caller may look at either; a function that reports leaves an error behind whenever it fails. -/
variable {ε α β : Type}

def Attempt (ε α : Type) : Type := List ε → Option α × List ε

namespace Attempt

instance : Monad (Attempt ε) where
  pure a := fun eg => (some a,eg)
  bind m f := fun eg =>
    match m eg with
    | (some a,eg) => f a eg
    | (none,eg) => (none,eg)

def throw (e : ε) : Attempt ε α := fun eg => (none,e::eg)

def ofExcept : Except ε α → Attempt ε α
  | .ok a => pure a
  | .error e => throw e

def orThrow (e : ε) : Option α → Attempt ε α
  | some a => pure a
  | none => throw e

def check : Attempt ε Unit := fun eg => (if eg.isEmpty then some () else none,eg)

theorem pure_apply (a : α) (eg : List ε) : (pure a : Attempt ε α) eg = (some a,eg) := rfl

theorem throw_apply (e : ε) (eg : List ε) : (throw e : Attempt ε α) eg = (none,e::eg) := rfl

theorem bind_apply (m : Attempt ε α) (f : α → Attempt ε β) (eg : List ε) :
    (m >>= f) eg = match m eg with
      | (some a,eg) => f a eg
      | (none,eg) => (none,eg) := rfl

theorem bind_of_some {m : Attempt ε α} {f : α → Attempt ε β} {eg eg' : List ε} {a : α}
    (h : m eg = (some a,eg')) : (m >>= f) eg = f a eg' := by
  rw [bind_apply,h]

theorem bind_of_none {m : Attempt ε α} {f : α → Attempt ε β} {eg eg' : List ε}
    (h : m eg = (none,eg')) : (m >>= f) eg = (none,eg') := by
  rw [bind_apply,h]

theorem bind_eq_some {m : Attempt ε α} {f : α → Attempt ε β} {eg eg' : List ε} {b : β} :
    (m >>= f) eg = (some b,eg') ↔ ∃ a eg'', m eg = (some a,eg'') ∧ f a eg'' = (some b,eg') := by
  rw [bind_apply]
  rcases h : m eg with ⟨_ | a,eg''⟩
  · simp
  · simp

theorem check_eq_some {eg eg' : List ε} :
    (check : Attempt ε Unit) eg = (some (),eg') ↔ eg = [] ∧ eg' = [] := by
  cases eg with
  | nil => simp [check,eq_comm]
  | cons e eg => simp [check]

theorem ofExcept_eq_some {r : Except ε α} {eg eg' : List ε} {a : α} :
    ofExcept r eg = (some a,eg') ↔ r = .ok a ∧ eg = eg' := by
  cases r with
  | ok b => simp [ofExcept,pure_apply]
  | error e => simp [ofExcept,throw_apply]

theorem orThrow_eq_some {e : ε} {r : Option α} {eg eg' : List ε} {a : α} :
    orThrow e r eg = (some a,eg') ↔ r = some a ∧ eg = eg' := by
  cases r with
  | some b => simp [orThrow,pure_apply]
  | none => simp [orThrow,throw_apply]

/-- Failure leaves an error pending. -/
def Reports (m : Attempt ε α) : Prop := ∀ eg, (m eg).1 = none → (m eg).2 ≠ []

/-- A pending error stays pending. -/
def Keeps (m : Attempt ε α) : Prop := ∀ eg, eg ≠ [] → (m eg).2 ≠ []

/-- Success with nothing pending leaves nothing pending. -/
def Clean (m : Attempt ε α) : Prop := ∀ a eg, m [] = (some a,eg) → eg = []

theorem reports_pure (a : α) : Reports (pure a : Attempt ε α) := fun eg h => by
  simp [pure_apply] at h

theorem reports_throw (e : ε) : Reports (throw e : Attempt ε α) := fun _ _ => List.cons_ne_nil _ _

theorem reports_check : Reports (check : Attempt ε Unit) := fun eg h => by
  cases eg with
  | nil => simp [check] at h
  | cons e eg => simp [check]

theorem Reports.bind {m : Attempt ε α} {f : α → Attempt ε β} (hm : Reports m)
    (hf : ∀ a, Reports (f a)) : Reports (m >>= f) := by
  intro eg h
  rcases hr : m eg with ⟨_ | a,eg'⟩
  · rw [bind_of_none hr]
    have hne := hm eg (by rw [hr])
    rwa [hr] at hne
  · rw [bind_of_some hr] at h ⊢
    exact hf a eg' h

theorem reports_ofExcept (r : Except ε α) : Reports (ofExcept r) := by
  cases r with
  | ok a => exact reports_pure a
  | error e => exact reports_throw e

theorem reports_orThrow (e : ε) (r : Option α) : Reports (orThrow e r) := by
  cases r with
  | some a => exact reports_pure a
  | none => exact reports_throw e

theorem keeps_pure (a : α) : Keeps (pure a : Attempt ε α) := fun _ h => h

theorem keeps_throw (e : ε) : Keeps (throw e : Attempt ε α) := fun _ _ => List.cons_ne_nil _ _

theorem keeps_check : Keeps (check : Attempt ε Unit) := fun _ h => h

theorem Keeps.bind {m : Attempt ε α} {f : α → Attempt ε β} (hm : Keeps m)
    (hf : ∀ a, Keeps (f a)) : Keeps (m >>= f) := by
  intro eg h
  have hne := hm eg h
  rcases hr : m eg with ⟨_ | a,eg'⟩
  · rw [hr] at hne
    rwa [bind_of_none hr]
  · rw [hr] at hne
    rw [bind_of_some hr]
    exact hf a eg' hne

theorem keeps_orThrow (e : ε) (r : Option α) : Keeps (orThrow e r) := by
  cases r with
  | some a => exact keeps_pure a
  | none => exact keeps_throw e

theorem clean_pure (a : α) : Clean (pure a : Attempt ε α) := fun a' eg h => by
  rw [pure_apply] at h
  cases h
  rfl

theorem clean_throw (e : ε) : Clean (throw e : Attempt ε α) := fun a eg h => by
  rw [throw_apply] at h
  cases h

theorem Clean.bind {m : Attempt ε α} {f : α → Attempt ε β} (hm : Clean m)
    (hf : ∀ a, Clean (f a)) : Clean (m >>= f) := by
  intro b eg h
  obtain ⟨a,eg',ha,hb⟩ := bind_eq_some.mp h
  rw [hm a eg' ha] at hb
  exact hf a b eg hb

/-- What ends with a check is clean whatever came before it. -/
theorem clean_bind_check {m : Attempt ε α} : Clean (m >>= fun a => check >>= fun _ => pure a) := by
  intro a eg h
  obtain ⟨a',eg',-,hcheck⟩ := bind_eq_some.mp h
  obtain ⟨_,eg'',hnil,hpure⟩ := bind_eq_some.mp hcheck
  obtain ⟨-,rfl⟩ := check_eq_some.mp hnil
  exact clean_pure a' a eg hpure

theorem Keeps.eq_nil {m : Attempt ε α} (hm : Keeps m) {eg : List ε} (h : (m eg).2 = []) :
    eg = [] := by
  by_contra hne
  exact hm eg hne h

end Attempt
