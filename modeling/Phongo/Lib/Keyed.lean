import Mathlib.Data.List.Induction
import Mathlib.Tactic.Common
import Phongo.Lib.Table

/-! Ordered sets kept as tables: every value is under a key of its own.
Where no two values in question have the same key, the table is the list of its values. -/
namespace OrderedTable

section Distinct
variable {α : Type} [DecidableEq α]

theorem eraseDups_append_singleton (l : List α) (a : α) :
    (l ++ [a]).eraseDups = if a ∈ l then l.eraseDups else l.eraseDups ++ [a] := by
  rw [List.eraseDups_append]
  by_cases h : a ∈ l
  · simp [List.removeAll,h]
  · simp [List.removeAll,h,List.eraseDups_cons]

theorem nodup_eraseDups (l : List α) : l.eraseDups.Nodup := by
  induction l using List.reverseRecOn with
  | nil => exact List.nodup_nil
  | append_singleton l a ih =>
    rw [eraseDups_append_singleton]
    split
    · exact ih
    · rename_i h
      refine List.nodup_append.mpr ⟨ih,List.nodup_singleton a,fun x hx y hy hxy => h ?_⟩
      rw [← List.mem_singleton.mp hy,← hxy]
      exact List.mem_eraseDups.mp hx

end Distinct

variable {κ α : Type} [DecidableEq κ] (key : α → κ)

def values (t : Table κ α) : List α := t.map Prod.snd

/-- Every value is under the key it has. -/
def Keyed (t : Table κ α) : Prop := ∀ e ∈ t, e.1 = key e.2

/-- The value goes to the end, unless there is one with its key. -/
def insertNew (t : Table κ α) (a : α) : Table κ α :=
  if (find? t (key a)).isSome then t else update t (key a) a

variable {key} {t : Table κ α} {a : α}

omit [DecidableEq κ] in
theorem Keyed.nil : Keyed key ([] : Table κ α) := fun _ he => absurd he List.not_mem_nil

omit [DecidableEq κ] in
theorem Keyed.mem_keys (h : Keyed key t) {k : κ} : k ∈ keys t ↔ ∃ b ∈ values t, key b = k := by
  unfold keys values
  simp only [List.mem_map]
  constructor
  · rintro ⟨e,he,rfl⟩
    exact ⟨e.2,⟨e,he,rfl⟩,(h e he).symm⟩
  · rintro ⟨b,⟨e,he,rfl⟩,hb⟩
    exact ⟨e,he,(h e he).trans hb⟩

theorem insertNew_of_notMem (h : key a ∉ keys t) : insertNew key t a = t ++ [(key a,a)] := by
  rw [insertNew,(find?_eq_none t (key a)).mpr h]
  exact update_of_notMem t (key a) a h

theorem insertNew_of_mem (h : key a ∈ keys t) : insertNew key t a = t := by
  rw [insertNew,if_pos]
  rw [Option.isSome_iff_ne_none]
  exact fun hnone => (find?_eq_none t (key a)).mp hnone h

theorem Keyed.insertNew (h : Keyed key t) (a : α) : Keyed key (insertNew key t a) := by
  by_cases hk : key a ∈ keys t
  · rwa [insertNew_of_mem hk]
  · rw [insertNew_of_notMem hk]
    intro e he
    rcases List.mem_append.mp he with he | he
    · exact h e he
    · rw [List.mem_singleton.mp he]

/-- A value joins the others if it is none of them. -/
theorem Keyed.values_insertNew [DecidableEq α] (h : Keyed key t)
    (hinj : ∀ b ∈ values t, key b = key a → b = a) :
    values (OrderedTable.insertNew key t a) =
      if a ∈ values t then values t else values t ++ [a] := by
  have hmem : key a ∈ keys t ↔ a ∈ values t := by
    rw [h.mem_keys]
    constructor
    · rintro ⟨b,hb,hkey⟩
      exact hinj b hb hkey ▸ hb
    · exact fun ha => ⟨a,ha,rfl⟩
  by_cases ha : a ∈ values t
  · rw [insertNew_of_mem (hmem.mpr ha),if_pos ha]
  · rw [insertNew_of_notMem fun hk => ha (hmem.mp hk),if_neg ha]
    simp [values]

theorem Keyed.insertAll (h : Keyed key t) (l : List α) :
    Keyed key (l.foldl (OrderedTable.insertNew key) t) := by
  induction l generalizing t with
  | nil => exact h
  | cons a l ih => exact ih (h.insertNew a)

theorem values_insertAll [DecidableEq α] (l : List α)
    (hinj : ∀ a ∈ l, ∀ b ∈ l, key a = key b → a = b) :
    values (l.foldl (OrderedTable.insertNew key) []) = l.eraseDups := by
  induction l using List.reverseRecOn with
  | nil => rfl
  | append_singleton l a ih =>
    have hsub : ∀ x ∈ l, x ∈ l ++ [a] := fun x hx => List.mem_append_left _ hx
    have hprevious := ih fun x hx y hy => hinj x (hsub x hx) y (hsub y hy)
    rw [List.foldl_append,List.foldl_cons,List.foldl_nil,
      (Keyed.nil.insertAll l).values_insertNew,hprevious,eraseDups_append_singleton]
    · simp only [List.mem_eraseDups]
    · rw [hprevious]
      intro b hb hkey
      exact hinj b (hsub b (List.mem_eraseDups.mp hb)) a
        (List.mem_append_right _ (List.mem_singleton.mpr rfl)) hkey

theorem erase_sublist (t : Table κ α) (k : κ) : (erase t k).Sublist t := by
  induction t with
  | nil => exact List.Sublist.refl _
  | cons e t ih =>
    rw [erase]
    split
    · exact List.sublist_cons_self e t
    · exact ih.cons_cons e

theorem Keyed.erase (h : Keyed key t) (k : κ) : Keyed key (erase t k) :=
  fun e he => h e ((erase_sublist t k).subset he)

theorem Keyed.values_erase [DecidableEq α] (h : Keyed key t)
    (hinj : ∀ b ∈ values t, key b = key a → b = a) :
    values (OrderedTable.erase t (key a)) = (values t).erase a := by
  induction t with
  | nil => rfl
  | cons e t ih =>
    have hcons : values (e::t) = e.2::values t := rfl
    have hkey := h e List.mem_cons_self
    rw [OrderedTable.erase,hcons,List.erase_cons]
    by_cases he : e.1 = key a
    · have heq : e.2 = a := hinj e.2 List.mem_cons_self (hkey.symm.trans he)
      rw [if_pos he,if_pos (beq_iff_eq.mpr heq)]
    · have hne : e.2 ≠ a := fun heq => he (hkey.trans (congrArg key heq))
      rw [if_neg he,if_neg (by simpa using hne)]
      exact congrArg _ (ih (fun e' he' => h e' (List.mem_cons_of_mem _ he'))
        fun b hb => hinj b (List.mem_cons_of_mem _ hb))

theorem find?_erase_of_ne (t : Table κ α) {k k' : κ} (h : k' ≠ k) :
    find? (erase t k) k' = find? t k' := by
  induction t with
  | nil => rfl
  | cons e t ih =>
    by_cases he : e.1 = k
    · subst he
      simp [erase,find?,h.symm]
    · by_cases he' : e.1 = k'
      · subst he'
        simp [erase,find?,he]
      · simp [erase,find?,he,he',ih]

theorem find?_erase_self (t : Table κ α) {k : κ} (h : (keys t).Nodup) :
    find? (erase t k) k = none := by
  induction t with
  | nil => rfl
  | cons e t ih =>
    have hn := List.nodup_cons.mp h
    by_cases he : e.1 = k
    · rw [erase,if_pos he]
      exact (find?_eq_none t k).mpr (he ▸ hn.1)
    · rw [erase,if_neg he,find?,if_neg he]
      exact ih hn.2

end OrderedTable
