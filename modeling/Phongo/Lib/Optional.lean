import Mathlib.Data.List.Nodup
import Mathlib.Tactic.Common
import Phongo.Lib.Table

/-! Tables some of whose entries are left out. -/
namespace OrderedTable
variable {κ α : Type}

def present (t : Table κ (Option α)) : Table κ α := t.filterMap fun e => e.2.map fun a => (e.1,a)

@[simp] theorem present_nil : present ([] : Table κ (Option α)) = [] := rfl

@[simp] theorem present_append (t u : Table κ (Option α)) :
    present (t ++ u) = present t ++ present u := by
  simp [present]

theorem present_singleton (k : κ) (a : α) : present [(k,some a)] = [(k,a)] := rfl

theorem present_absent (k : κ) : present [(k,(none : Option α))] = [] := rfl

theorem keys_present (t : Table κ (Option α)) : (keys (present t)).Sublist (keys t) := by
  induction t with
  | nil => exact List.Sublist.refl _
  | cons e t ih =>
    rcases e with ⟨k,_ | a⟩
    · exact ih.cons k
    · exact ih.cons_cons k

/-- Under distinct keys a key has the value it is listed with. -/
theorem find?_present [DecidableEq κ] {t : Table κ (Option α)} {k : κ} {o : Option α}
    (hn : (keys t).Nodup) (h : (k,o) ∈ t) : find? (present t) k = o := by
  induction t with
  | nil => exact absurd h List.not_mem_nil
  | cons e t ih =>
    have hn' := List.nodup_cons.mp hn
    rcases List.mem_cons.mp h with rfl | h
    · cases o with
      | none =>
        have hk : k ∉ keys (present t) := fun hk => hn'.1 ((keys_present t).subset hk)
        exact (find?_eq_none (present t) k).mpr hk
      | some a => simp [present,find?]
    · have hne : e.1 ≠ k := by
        intro he
        exact hn'.1 (List.mem_map.mpr ⟨(k,o),h,he.symm⟩)
      rw [← ih hn'.2 h]
      rcases e with ⟨k',_ | a⟩
      · rfl
      · simp only [present,List.filterMap_cons,Option.map_some,find?]
        exact if_neg hne

theorem ne_none_of_mem_keys_present [DecidableEq κ] {t : Table κ (Option α)} {k : κ} {o : Option α}
    (hn : (keys t).Nodup) (h : (k,o) ∈ t) (hk : k ∈ keys (present t)) : o ≠ none := by
  rintro rfl
  exact (find?_eq_none (present t) k).mp (find?_present hn h) hk

/-- Looking up a key where entries were dropped by their keys. -/
theorem find?_filter [DecidableEq κ] (p : κ → Bool) (t : Table κ α) (k : κ) :
    find? (t.filter fun e => p e.1) k = if p k then find? t k else none := by
  induction t with
  | nil => simp [find?]
  | cons e t ih =>
    by_cases hp : p e.1 = true
    · by_cases hk : e.1 = k
      · subst hk
        simp [find?,hp]
      · simp [find?,hp,hk,ih]
    · have hfilter : ((e::t).filter fun e => p e.1) = t.filter fun e => p e.1 :=
        List.filter_cons_of_neg hp
      rw [hfilter,ih]
      by_cases hk : e.1 = k
      · subst hk
        rw [if_neg hp,if_neg hp]
      · rw [find?,if_neg hk]

end OrderedTable
