import Mathlib.Data.List.Pairwise
import Mathlib.Logic.Relation
import Mathlib.Order.Basic
import Mathlib.Tactic.Common

/-! Logs of processes with clocks. Where the clock of a process never goes back, and a process that
is handed a time catches up with it, no event is earlier than what happened before it. -/
namespace Clock

variable {α P T σ ι : Type}

/-- An event and a later one that depends on it, as places in the log. -/
def Precedes (depends : α → α → Prop) (log : List α) (i j : ℕ) : Prop :=
  i < j ∧ ∃ a b, log[i]? = some a ∧ log[j]? = some b ∧ depends a b

def HappensBefore (depends : α → α → Prop) (log : List α) : ℕ → ℕ → Prop :=
  Relation.TransGen (Precedes depends log)

def record (step : σ → ι → σ × α) : σ → List ι → List α
  | _, [] => []
  | s, i::is => (step s i).2::record step (step s i).1 is

section Logs
variable [Preorder T] {time : α → T} {depends : α → α → Prop} {log : List α} {i j : ℕ} {a b : α}

theorem Precedes.time_le (h : log.Pairwise fun a b => depends a b → time a ≤ time b)
    (hij : Precedes depends log i j) (ha : log[i]? = some a) (hb : log[j]? = some b) :
    time a ≤ time b := by
  obtain ⟨hlt,a',b',ha',hb',hdepends⟩ := hij
  obtain ⟨hi,rfl⟩ := List.getElem?_eq_some_iff.mp ha
  obtain ⟨hj,rfl⟩ := List.getElem?_eq_some_iff.mp hb
  rw [ha] at ha'
  rw [hb] at hb'
  have hle := List.pairwise_iff_getElem.mp h i j hi hj hlt
  apply hle
  rwa [Option.some.inj ha',Option.some.inj hb']

/-- What holds of events that depend on each other directly holds along any chain of them. -/
theorem HappensBefore.time_le (h : log.Pairwise fun a b => depends a b → time a ≤ time b)
    (hij : HappensBefore depends log i j) (ha : log[i]? = some a) (hb : log[j]? = some b) :
    time a ≤ time b := by
  induction hij generalizing b with
  | single hstep => exact hstep.time_le h ha hb
  | tail _ hstep ih =>
    obtain ⟨c,_,hc,_,_⟩ := hstep.2
    exact le_trans (ih hc) (hstep.time_le h hc hb)

end Logs

section Runs
variable [Preorder T]

/-- Steps that never set a clock back, and record the time of the process they are of. -/
structure Advances (step : σ → ι → σ × α) (clock : σ → P → T) (process : α → P) (time : α → T) :
    Prop where
  clock_le : ∀ s i p, clock s p ≤ clock (step s i).1 p
  time_eq : ∀ s i, time (step s i).2 = clock (step s i).1 (process (step s i).2)

variable {step : σ → ι → σ × α} {clock : σ → P → T} {process : α → P} {time : α → T}

/-- What every step records is in the log of a run. -/
theorem forall_record {Q : α → Prop} (h : ∀ s i, Q (step s i).2) (s : σ) (is : List ι) :
    ∀ a ∈ record step s is, Q a := by
  induction is generalizing s with
  | nil => simp [record]
  | cons i is ih =>
    intro a ha
    rcases List.mem_cons.mp ha with rfl | ha
    · exact h s i
    · exact ih _ a ha

theorem Advances.clock_le_time (h : Advances step clock process time) {s : σ} {is : List ι} {a : α}
    (ha : a ∈ record step s is) : clock s (process a) ≤ time a := by
  induction is generalizing s with
  | nil => simp [record] at ha
  | cons i is ih =>
    rcases List.mem_cons.mp ha with rfl | ha
    · rw [h.time_eq]
      apply h.clock_le
    · exact le_trans (h.clock_le s i _) (ih ha)

/-- The events of one process are in the order of their times. -/
theorem Advances.pairwise (h : Advances step clock process time) (s : σ) (is : List ι) :
    (record step s is).Pairwise fun a b => process a = process b → time a ≤ time b := by
  induction is generalizing s with
  | nil => simp [record]
  | cons i is ih =>
    apply List.Pairwise.cons
    · intro b hb hprocess
      rw [h.time_eq,hprocess]
      exact h.clock_le_time hb
    · exact ih _

/-- The clock condition: where times that are handed on are caught up with, an event is not earlier
than any that happened before it. -/
theorem Advances.time_le (h : Advances step clock process time) {hands : α → α → Prop}
    (hhands : ∀ s i t j, hands (step s i).2 (step t j).2 →
      time (step s i).2 ≤ time (step t j).2)
    {s : σ} {is : List ι} {i j : ℕ} {a b : α}
    (hij : HappensBefore (fun a b => process a = process b ∨ hands a b) (record step s is) i j)
    (ha : (record step s is)[i]? = some a) (hb : (record step s is)[j]? = some b) :
    time a ≤ time b := by
  have hrecorded := forall_record (Q:=fun a => ∃ s i, a = (step s i).2)
    (fun s i => ⟨s,i,rfl⟩) s is
  have hpairwise : (record step s is).Pairwise fun a b =>
      (process a = process b ∨ hands a b) → time a ≤ time b := by
    apply List.Pairwise.imp_of_mem _ (h.pairwise s is)
    rintro a b ha hb hle (hprocess | hab)
    · exact hle hprocess
    · obtain ⟨s,i,rfl⟩ := hrecorded a ha
      obtain ⟨t,j,rfl⟩ := hrecorded b hb
      exact hhands s i t j hab
  exact hij.time_le hpairwise ha hb

end Runs
end Clock
