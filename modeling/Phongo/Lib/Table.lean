import Mathlib.Data.List.Nodup
import Mathlib.Tactic.Common

/-! Insertion-ordered tables with update in place.
A key keeps the position of its first insertion; a later write replaces the value. -/
namespace OrderedTable

variable {κ κ' α β : Type}

/-- Entries in insertion order. -/
abbrev Table (κ α : Type) := List (κ × α)

def keys (t : Table κ α) : List κ := t.map Prod.fst

@[simp] theorem keys_nil : keys ([] : Table κ α) = [] := rfl
@[simp] theorem keys_cons (e : κ × α) (t : Table κ α) : keys (e::t) = e.1::keys t := rfl
@[simp] theorem keys_append (t u : Table κ α) : keys (t ++ u) = keys t ++ keys u := by
  simp [keys]

section Update
variable [DecidableEq κ]

def update : Table κ α → κ → α → Table κ α
  | [], k, a => [(k,a)]
  | e::t, k, a => if e.1 = k then (k,a)::t else e::update t k a

def find? : Table κ α → κ → Option α
  | [], _ => none
  | e::t, k => if e.1 = k then some e.2 else find? t k

def erase : Table κ α → κ → Table κ α
  | [], _ => []
  | e::t, k => if e.1 = k then t else e::erase t k

theorem update_of_notMem (t : Table κ α) (k : κ) (a : α) (h : k ∉ keys t) :
    update t k a = t ++ [(k,a)] := by
  induction t with
  | nil => rfl
  | cons e t ih =>
    simp only [keys_cons,List.mem_cons,not_or] at h
    simp [update,Ne.symm h.1,ih h.2]

theorem keys_update_of_mem (t : Table κ α) (k : κ) (a : α) (h : k ∈ keys t) :
    keys (update t k a) = keys t := by
  induction t with
  | nil => simp at h
  | cons e t ih =>
    by_cases he : e.1 = k
    · simp [update,he]
    · have hk : k ∈ keys t := by
        rcases List.mem_cons.mp h with hk | hk
        · exact absurd hk.symm he
        · exact hk
      simp [update,he,ih hk]

theorem mem_keys_update (t : Table κ α) (k k' : κ) (a : α) :
    k' ∈ keys (update t k a) ↔ k' = k ∨ k' ∈ keys t := by
  by_cases h : k ∈ keys t
  · rw [keys_update_of_mem t k a h]
    constructor
    · exact Or.inr
    · rintro (rfl | hk)
      · exact h
      · exact hk
  · rw [update_of_notMem t k a h]
    simp [or_comm]

theorem nodup_update (t : Table κ α) (k : κ) (a : α) (h : (keys t).Nodup) :
    (keys (update t k a)).Nodup := by
  by_cases hk : k ∈ keys t
  · rwa [keys_update_of_mem t k a hk]
  · rw [update_of_notMem t k a hk,keys_append]
    exact List.nodup_append.mpr ⟨h,by simp,by
      intro x hx y hy
      have hy' : y = k := by simpa using hy
      rintro rfl
      exact hk (hy' ▸ hx)⟩

@[simp] theorem find?_update_self (t : Table κ α) (k : κ) (a : α) :
    find? (update t k a) k = some a := by
  induction t with
  | nil => simp [update,find?]
  | cons e t ih => by_cases he : e.1 = k <;> simp [update,find?,he,ih]

theorem find?_update_of_ne (t : Table κ α) (k k' : κ) (a : α) (h : k' ≠ k) :
    find? (update t k a) k' = find? t k' := by
  induction t with
  | nil => simp [update,find?,h.symm]
  | cons e t ih =>
    by_cases he : e.1 = k
    · subst he; simp [update,find?,h.symm]
    · by_cases he' : e.1 = k'
      · subst he'; simp [update,find?,h]
      · simp [update,find?,he,he',ih]

/-- A value that is replaced by one that looks the same. -/
theorem map_update_of_find? {t : Table κ α} {k : κ} {a a' : α} (f : α → β)
    (h : find? t k = some a) (hf : f a' = f a) :
    (update t k a').map (fun e => f e.2) = t.map (fun e => f e.2) := by
  induction t with
  | nil => simp [find?] at h
  | cons e t ih =>
    by_cases he : e.1 = k
    · simp only [find?,he,if_true,Option.some.injEq] at h
      simp [update,he,hf,h]
    · simp only [find?,he,if_false] at h
      simp [update,he,ih h]

@[simp] theorem update_update (t : Table κ α) (k : κ) (a b : α) :
    update (update t k a) k b = update t k b := by
  induction t with
  | nil => simp [update]
  | cons e t ih => by_cases h : e.1 = k <;> simp [update,h,ih]

theorem find?_append (t u : Table κ α) (k : κ) :
    find? (t ++ u) k = (find? t k).or (find? u k) := by
  induction t with
  | nil => simp [find?]
  | cons e t ih => by_cases he : e.1 = k <;> simp [find?,he,ih]

theorem find?_eq_none (t : Table κ α) (k : κ) : find? t k = none ↔ k ∉ keys t := by
  induction t with
  | nil => simp [find?]
  | cons e t ih =>
    by_cases he : e.1 = k
    · simp [find?,he]
    · simp [find?,he,ih,Ne.symm he]

theorem mem_of_find?_eq_some (t : Table κ α) (k : κ) (a : α) (h : find? t k = some a) :
    (k,a) ∈ t := by
  induction t with
  | nil => simp [find?] at h
  | cons e t ih =>
    by_cases he : e.1 = k
    · simp only [find?,he,if_true,Option.some.injEq] at h
      have hea : e = (k,a) := Prod.ext he h
      simp [hea]
    · simp only [find?,he,if_false] at h
      exact List.mem_cons_of_mem _ (ih h)

def mapValues (f : α → α) (t : Table κ α) : Table κ α := t.map fun e => (e.1,f e.2)

omit [DecidableEq κ] in
@[simp] theorem keys_mapValues (f : α → α) (t : Table κ α) : keys (mapValues f t) = keys t := by
  simp [keys,mapValues]

theorem find?_mapValues (f : α → α) (t : Table κ α) (k : κ) :
    find? (mapValues f t) k = (find? t k).map f := by
  induction t with
  | nil => rfl
  | cons e t ih =>
    by_cases he : e.1 = k
    · simp [mapValues,find?,he]
    · simpa [mapValues,find?,he] using ih

/-- Writing `f a` over `a` changes values in place where `f` changes no other value. -/
theorem update_eq_mapValues (f : α → α) (t : Table κ α) (k : κ) (a : α)
    (h : find? t k = some a) (hf : ∀ e ∈ t, e ≠ (k,a) → f e.2 = e.2) (hn : (keys t).Nodup) :
    update t k (f a) = mapValues f t := by
  induction t with
  | nil => simp [find?] at h
  | cons e t ih =>
    have hn' := List.nodup_cons.mp hn
    have hf' : ∀ e' ∈ t, e' ≠ (k,a) → f e'.2 = e'.2 := fun e' hm =>
      hf e' (List.mem_cons_of_mem _ hm)
    by_cases he : e.1 = k
    · simp only [find?,he,if_true,Option.some.injEq] at h
      have hrest : mapValues f t = t := by
        refine (List.map_congr_left fun e' hm => ?_).trans (List.map_id t)
        have hne : e' ≠ (k,a) := by
          rintro rfl
          exact hn'.1 (he ▸ List.mem_map_of_mem hm)
        exact Prod.ext rfl (hf' e' hm hne)
      simp only [update,he,if_true,mapValues,List.map_cons,h]
      exact congrArg _ hrest.symm
    · simp only [find?,he,if_false] at h
      have hne : e ≠ (k,a) := fun heq => he (heq ▸ rfl)
      simp only [update,he,if_false,mapValues,List.map_cons,ih h hf' hn'.2]
      rw [hf e List.mem_cons_self hne]

/-- Successive writes, oldest first. -/
def updateAll (t : Table κ α) (es : Table κ α) : Table κ α :=
  es.foldl (fun u e => update u e.1 e.2) t

@[simp] theorem updateAll_nil (t : Table κ α) : updateAll t [] = t := rfl
@[simp] theorem updateAll_cons (t : Table κ α) (e : κ × α) (es : Table κ α) :
    updateAll t (e::es) = updateAll (update t e.1 e.2) es := rfl

theorem updateAll_append (t es : Table κ α) (h : (keys (t ++ es)).Nodup) :
    updateAll t es = t ++ es := by
  induction es generalizing t with
  | nil => simp
  | cons e es ih =>
    have hd := List.nodup_append.mp (by simpa using h)
    have hk : e.1 ∉ keys t := fun hm => hd.2.2 e.1 hm e.1 (by simp) rfl
    rw [updateAll_cons,update_of_notMem t e.1 e.2 hk,ih]
    · simp
    · simpa using h

theorem updateAll_self (es : Table κ α) (h : (keys es).Nodup) : updateAll [] es = es := by
  simpa using updateAll_append [] es (by simpa using h)

/-- The last write to a key, or else what the table held. -/
theorem find?_updateAll (t es : Table κ α) (hn : (keys es).Nodup) (k : κ) :
    find? (updateAll t es) k = (find? es k).or (find? t k) := by
  induction es generalizing t with
  | nil => rfl
  | cons e es ih =>
    obtain ⟨he,hes⟩ := List.nodup_cons.mp hn
    rw [updateAll_cons,ih _ hes]
    by_cases hk : e.1 = k
    · have hnone : find? es k = none := (find?_eq_none es k).mpr (hk ▸ he)
      simp [find?,hk,hnone]
    · rw [find?_update_of_ne t e.1 k e.2 (Ne.symm hk)]
      simp [find?,hk]

theorem nodup_updateAll (t es : Table κ α) (h : (keys t).Nodup) :
    (keys (updateAll t es)).Nodup := by
  induction es generalizing t with
  | nil => exact h
  | cons e es ih => exact ih _ (nodup_update t e.1 e.2 h)

theorem mem_keys_updateAll (t es : Table κ α) (k : κ) :
    k ∈ keys (updateAll t es) ↔ k ∈ keys t ∨ k ∈ keys es := by
  induction es generalizing t with
  | nil => simp
  | cons e es ih =>
    rw [updateAll_cons,ih,mem_keys_update,keys_cons,List.mem_cons,or_assoc,or_left_comm]

theorem updateAll_eq_nil {es : Table κ α} : updateAll [] es = [] ↔ es = [] := by
  constructor
  · intro h
    cases es with
    | nil => rfl
    | cons e es =>
      have hmem : e.1 ∈ keys (updateAll [] (e::es)) :=
        (mem_keys_updateAll [] (e::es) e.1).mpr (Or.inr List.mem_cons_self)
      rw [h] at hmem
      cases hmem
  · rintro rfl
    rfl

theorem find?_of_mem {t : Table κ α} {k : κ} {a : α} (hn : (keys t).Nodup) (h : (k,a) ∈ t) :
    find? t k = some a := by
  cases hfind : find? t k with
  | none => exact absurd (List.mem_map_of_mem (f:=Prod.fst) h) ((find?_eq_none t k).mp hfind)
  | some a' =>
    have hmem := mem_of_find?_eq_some t k a' hfind
    have heq : (k,a') = (k,a) := List.inj_on_of_nodup_map hn hmem h rfl
    exact congrArg some (Prod.mk.inj heq).2

theorem mem_of_mem_update {t : Table κ α} {k : κ} {a : α} {e : κ × α} (h : e ∈ update t k a) :
    e = (k,a) ∨ e ∈ t := by
  induction t with
  | nil => simpa [update] using h
  | cons e' t ih =>
    by_cases he : e'.1 = k
    · simp only [update,he,if_true,List.mem_cons] at h
      rcases h with h | h
      · exact Or.inl h
      · exact Or.inr (List.mem_cons_of_mem _ h)
    · simp only [update,he,if_false,List.mem_cons] at h
      rcases h with h | h
      · exact Or.inr (h ▸ List.mem_cons_self)
      · exact (ih h).imp id (List.mem_cons_of_mem _)

theorem mem_of_mem_updateAll {t es : Table κ α} {e : κ × α} (h : e ∈ updateAll t es) :
    e ∈ t ∨ e ∈ es := by
  induction es generalizing t with
  | nil => exact Or.inl h
  | cons e' es ih =>
    rcases ih h with h' | h'
    · rcases mem_of_mem_update h' with rfl | h''
      · exact Or.inr List.mem_cons_self
      · exact Or.inl h''
    · exact Or.inr (List.mem_cons_of_mem _ h')

theorem forall_mem_update {p : κ × α → Prop} (t : Table κ α) (k : κ) (a : α)
    (hn : (keys t).Nodup) :
    (∀ e ∈ update t k a, p e) ↔ (∀ e ∈ t, e.1 = k ∨ p e) ∧ p (k,a) := by
  induction t with
  | nil => simp [update]
  | cons e t ih =>
    have hn' := List.nodup_cons.mp hn
    by_cases he : e.1 = k
    · have hne : ∀ e' ∈ t, (e'.1 = k ∨ p e') ↔ p e' := fun e' hm => by
        have : e'.1 ≠ k := fun h => hn'.1 (by
          rw [he,← h]
          exact List.mem_map_of_mem hm)
        simp [this]
      simp only [update,he,if_true,List.forall_mem_cons,true_or,true_and]
      rw [and_comm]
      exact and_congr_left' (forall₂_congr fun e' hm => (hne e' hm).symm)
    · simp only [update,he,if_false,List.forall_mem_cons,false_or,ih hn'.2,and_assoc]

/-- `p` holds of every value that no later write to the same key replaces. -/
def Effective (p : α → Prop) : Table κ α → Prop
  | [] => True
  | e::es => (e.1 ∈ keys es ∨ p e.2) ∧ Effective p es

theorem forall_mem_updateAll {p : α → Prop} (t es : Table κ α) (hn : (keys t).Nodup) :
    (∀ e ∈ updateAll t es, p e.2) ↔ (∀ e ∈ t, e.1 ∈ keys es ∨ p e.2) ∧ Effective p es := by
  induction es generalizing t with
  | nil => simp [Effective]
  | cons e es ih =>
    rw [updateAll_cons,ih _ (nodup_update t e.1 e.2 hn),
      forall_mem_update (p:=fun e' => e'.1 ∈ keys es ∨ p e'.2) t e.1 e.2 hn]
    simp only [Effective,keys_cons,List.mem_cons,or_assoc,and_assoc]

/-- Two tables with the same keys and related values, after the same writes. -/
theorem forall₂_update {R : κ × α → κ × β → Prop} (hR : ∀ e f, R e f → e.1 = f.1)
    {t : Table κ α} {u : Table κ β} (h : List.Forall₂ R t u) {k : κ} {a : α} {b : β}
    (hab : R (k,a) (k,b)) : List.Forall₂ R (update t k a) (update u k b) := by
  induction h with
  | nil => exact .cons hab .nil
  | @cons e f t u he htu ih =>
    by_cases hk : e.1 = k
    · rw [update,update,if_pos hk,if_pos ((hR e f he).symm.trans hk)]
      exact .cons hab htu
    · rw [update,update,if_neg hk,if_neg fun hf => hk ((hR e f he).trans hf)]
      exact .cons he ih

theorem forall₂_updateAll {R : κ × α → κ × β → Prop} (hR : ∀ e f, R e f → e.1 = f.1)
    {t es : Table κ α} {u fs : Table κ β} (htu : List.Forall₂ R t u) (h : List.Forall₂ R es fs) :
    List.Forall₂ R (updateAll t es) (updateAll u fs) := by
  induction h generalizing t u with
  | nil => exact htu
  | @cons e f es fs he _ ih =>
    obtain ⟨k,a⟩ := e
    obtain ⟨k',b⟩ := f
    obtain rfl : k = k' := hR _ _ he
    exact ih (forall₂_update hR htu he)

end Update

theorem map_update [DecidableEq κ] [DecidableEq κ'] (g : κ → κ') (f : α → β)
    (hg : Function.Injective g) (t : Table κ α) (k : κ) (a : α) :
    (update t k a).map (fun e => (g e.1,f e.2)) =
      update (t.map (fun e => (g e.1,f e.2))) (g k) (f a) := by
  induction t with
  | nil => rfl
  | cons e t ih =>
    by_cases he : e.1 = k
    · simp [update,he]
    · have hge : g e.1 ≠ g k := fun h => he (hg h)
      simp [update,he,hge,ih]

theorem map_updateAll [DecidableEq κ] [DecidableEq κ'] (g : κ → κ') (f : α → β)
    (hg : Function.Injective g) (t es : Table κ α) :
    (updateAll t es).map (fun e => (g e.1,f e.2)) =
      updateAll (t.map fun e => (g e.1,f e.2)) (es.map fun e => (g e.1,f e.2)) := by
  induction es generalizing t with
  | nil => rfl
  | cons e es ih => rw [updateAll_cons,ih,map_update g f hg,List.map_cons,updateAll_cons]

end OrderedTable
