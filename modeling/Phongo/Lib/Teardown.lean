import Mathlib.Order.Basic
import Mathlib.Tactic.Common

/-! Tearing down resources that use one another.
Where each resource is younger than those it uses, going from the youngest to the oldest is always
in order; going the other way is so only if nothing alive uses any of them. -/
namespace Teardown

variable {ρ : Type} (uses : ρ → ρ → Prop) {dead : ρ → Prop}

/-- Nothing that is alive uses `x`. -/
def Unused (dead : ρ → Prop) (x : ρ) : Prop := ∀ y, uses y x → dead y

def Orderly : (ρ → Prop) → List ρ → Prop
  | _, [] => True
  | dead, x::xs => Unused uses dead x ∧ Orderly (fun y => y = x ∨ dead y) xs

variable {uses}

theorem orderly_congr {dead' : ρ → Prop} (h : ∀ y, dead y ↔ dead' y) (xs : List ρ) :
    Orderly uses dead xs ↔ Orderly uses dead' xs := by
  rw [show dead = dead' from funext fun y => propext (h y)]

theorem orderly_append (xs ys : List ρ) :
    Orderly uses dead (xs ++ ys) ↔
      Orderly uses dead xs ∧ Orderly uses (fun y => y ∈ xs ∨ dead y) ys := by
  induction xs generalizing dead with
  | nil => simp [Orderly]
  | cons x xs ih =>
    have hdead : ∀ y, (y ∈ xs ∨ y = x ∨ dead y) ↔ (y ∈ x::xs ∨ dead y) := fun y => by
      rw [List.mem_cons]
      tauto
    simp only [List.cons_append,Orderly,ih,and_assoc,orderly_congr hdead]

variable [Preorder ρ]

theorem orderly_iff_of_sorted (hage : ∀ x y, uses y x → x < y) {xs : List ρ}
    (hxs : xs.Pairwise (· < ·)) :
    Orderly uses dead xs ↔ ∀ x ∈ xs, Unused uses dead x := by
  induction xs generalizing dead with
  | nil => simp [Orderly]
  | cons x xs ih =>
    obtain ⟨hx,hxs⟩ := List.pairwise_cons.mp hxs
    have hrest : ∀ x' ∈ xs, (Unused uses (fun y => y = x ∨ dead y) x' ↔ Unused uses dead x') := by
      refine fun x' hx' => forall_congr' fun y => forall_congr' fun hy => or_iff_right ?_
      rintro rfl
      exact lt_asymm (hage x' y hy) (hx x' hx')
    simp only [Orderly,ih hxs,List.forall_mem_cons]
    exact and_congr_right fun _ => forall_congr' fun x' => forall_congr' fun hx' => hrest x' hx'

theorem orderly_reverse_iff_of_sorted (hage : ∀ x y, uses y x → x < y) {xs : List ρ}
    (hxs : xs.Pairwise (· < ·)) :
    Orderly uses dead xs.reverse ↔ ∀ x ∈ xs, ∀ y, uses y x → dead y ∨ y ∈ xs := by
  induction xs with
  | nil => simp [Orderly]
  | cons x xs ih =>
    obtain ⟨hx,hxs⟩ := List.pairwise_cons.mp hxs
    have hrest : ∀ x' ∈ xs, ∀ y, uses y x' → ((dead y ∨ y ∈ x::xs) ↔ (dead y ∨ y ∈ xs)) := by
      refine fun x' hx' y hy => or_congr_right (List.mem_cons.trans (or_iff_right ?_))
      rintro rfl
      exact lt_asymm (hage x' y hy) (hx x' hx')
    have hself : Unused uses (fun y => y ∈ xs.reverse ∨ dead y) x ↔
        ∀ y, uses y x → dead y ∨ y ∈ x::xs := by
      refine forall_congr' fun y => forall_congr' fun hy => ?_
      have hne : y ≠ x := fun he => lt_irrefl x (he ▸ hage x y hy)
      show y ∈ xs.reverse ∨ dead y ↔ _
      rw [List.mem_reverse,List.mem_cons,or_comm,or_iff_right hne]
    rw [List.reverse_cons,orderly_append,ih hxs,List.forall_mem_cons,← hself,and_comm]
    simp only [Orderly,and_true]
    refine and_congr_right fun _ => forall_congr' fun x' => forall_congr' fun hx' =>
      forall_congr' fun y => forall_congr' fun hy => (hrest x' hx' y hy).symm

end Teardown
