import Mathlib.Data.List.Perm.Basic
import Mathlib.Tactic.Common

/-! Loops with guarded steps over a list, and what such a loop owes to the order of its list. -/
namespace Loop

variable {ε σ τ α β : Type}

/-- A step succeeds exactly where it is allowed for what the view shows of the state, which
then changes as `effect` says. -/
structure Guarded (step : σ → α → Except ε σ) (view : σ → τ) (allowed : τ → α → Prop)
    (effect : τ → α → τ) : Prop where
  goes : ∀ s a, allowed (view s) a → ∃ t, step s a = .ok t ∧ view t = effect (view s) a
  fails : ∀ s a, ¬ allowed (view s) a → ∃ e, step s a = .error e

def Passes (allowed : τ → α → Prop) (effect : τ → α → τ) : τ → List α → Prop
  | _, [] => True
  | v, a::l => allowed v a ∧ Passes allowed effect (effect v a) l

section
variable {step : σ → α → Except ε σ} {view : σ → τ} {allowed : τ → α → Prop}
  {effect : τ → α → τ}

theorem Guarded.of_cases (h : ∀ s a,
    (allowed (view s) a ∧ ∃ t, step s a = .ok t ∧ view t = effect (view s) a) ∨
      (¬ allowed (view s) a ∧ ∃ e, step s a = .error e)) : Guarded step view allowed effect where
  goes s a ha := (h s a).elim And.right fun hn => absurd ha hn.1
  fails s a ha := (h s a).elim (fun hy => absurd hy.1 ha) And.right

theorem passes_iff {v : τ} {l : List α} : Passes allowed effect v l ↔
    ∀ pre a post, l = pre ++ a::post → allowed (pre.foldl effect v) a := by
  induction l generalizing v with
  | nil => simp [Passes]
  | cons b l ih =>
    rw [Passes,ih]
    constructor
    · rintro ⟨hb,hl⟩ pre a post h
      cases pre with
      | nil =>
        obtain ⟨rfl,-⟩ := List.cons.inj h
        exact hb
      | cons c pre =>
        obtain ⟨hc,hl'⟩ := List.cons.inj h
        subst hc
        exact hl pre a post hl'
    · intro h
      exact ⟨h [] b l rfl,fun pre a post hl => h (b::pre) a post (by rw [hl,List.cons_append])⟩

theorem Passes.of_mem {v : τ} {l : List α} (h : Passes allowed effect v l) {a : α} (ha : a ∈ l) :
    ∃ pre, pre ⊆ l ∧ allowed (pre.foldl effect v) a := by
  obtain ⟨pre,post,rfl⟩ := List.append_of_mem ha
  exact ⟨pre,List.subset_append_left pre _,passes_iff.mp h pre a post rfl⟩

theorem Guarded.view_of_foldlM (h : Guarded step view allowed effect) {l : List α} {s t : σ}
    (ht : l.foldlM step s = .ok t) : view t = l.foldl effect (view s) := by
  induction l generalizing s with
  | nil =>
    cases ht
    rfl
  | cons a l ih =>
    rw [List.foldlM_cons] at ht
    by_cases ha : allowed (view s) a
    · obtain ⟨u,hu,hview⟩ := h.goes s a ha
      rw [hu] at ht
      rw [ih ht,hview,List.foldl_cons]
    · obtain ⟨e,he⟩ := h.fails s a ha
      rw [he] at ht
      cases ht

theorem Guarded.foldlM_ok_iff (h : Guarded step view allowed effect) {l : List α} {s : σ} :
    (∃ t, l.foldlM step s = .ok t) ↔ Passes allowed effect (view s) l := by
  induction l generalizing s with
  | nil => exact ⟨fun _ => trivial,fun _ => ⟨s,rfl⟩⟩
  | cons a l ih =>
    rw [List.foldlM_cons]
    by_cases ha : allowed (view s) a
    · obtain ⟨u,hu,hview⟩ := h.goes s a ha
      have hl := ih (s := u)
      rw [hview] at hl
      rw [hu,Passes]
      exact ⟨fun ht => ⟨ha,hl.mp ht⟩,fun hp => hl.mpr hp.2⟩
    · obtain ⟨e,he⟩ := h.fails s a ha
      rw [he]
      constructor
      · rintro ⟨t,ht⟩
        cases ht
      · intro hp
        exact absurd hp.1 ha

end

/-- What the elements give last, or else `b`. -/
def given (g : α → Option β) (b : β) (l : List α) : β := l.foldl (fun b a => (g a).getD b) b

def Single (g : α → Option β) (l : List α) : Prop :=
  ∀ a ∈ l, ∀ a' ∈ l, (g a).isSome → (g a').isSome → a = a'

section
variable {g : α → Option β} {l l' : List α}

@[simp] theorem given_cons (b : β) (a : α) : given g b (a::l) = given g ((g a).getD b) l := rfl

theorem Single.subset (h : Single g l') (hl : l ⊆ l') : Single g l :=
  fun a ha a' ha' => h a (hl ha) a' (hl ha')

theorem Single.perm (h : Single g l) (hl : l.Perm l') : Single g l' := h.subset hl.symm.subset

theorem given_of_none {b : β} (h : ∀ a ∈ l, g a = none) : given g b l = b := by
  induction l with
  | nil => rfl
  | cons a l ih =>
    rw [given_cons,h a List.mem_cons_self,Option.getD_none]
    exact ih fun a' ha' => h a' (List.mem_cons_of_mem a ha')

theorem Single.given_eq (h : Single g l) {a : α} {b c : β} (ha : a ∈ l) (hg : g a = some c) :
    given g b l = c := by
  induction l generalizing b with
  | nil => cases ha
  | cons a' l ih =>
    rw [given_cons]
    by_cases hl : a ∈ l
    · exact ih (h.subset (List.subset_cons_self a' l)) hl
    · obtain rfl : a = a' := by simpa [hl] using ha
      rw [hg,Option.getD_some]
      refine given_of_none fun a' ha' => ?_
      -- another giver would be `a`, which is not in the rest
      by_contra hn
      have := h a List.mem_cons_self a' (List.mem_cons_of_mem a ha') (by rw [hg]; rfl)
        (Option.isSome_iff_ne_none.mpr hn)
      exact hl (this ▸ ha')

theorem Single.given_perm (h : Single g l) (hl : l.Perm l') (b : β) :
    given g b l = given g b l' := by
  refine hl.foldl_eq' (fun a ha a' ha' z => ?_) b
  cases hg : g a with
  | none => rfl
  | some c =>
    cases hg' : g a' with
    | none => rfl
    | some c' =>
      obtain rfl := h a ha a' ha' (by rw [hg]; rfl) (by rw [hg']; rfl)
      rw [Option.some.inj (hg.symm.trans hg')]

end

/-- Those of the elements that meet `p`, then the others. -/
def early (p : α → Bool) (l : List α) : List α := l.filter p ++ l.filter (!p ·)

theorem early_perm (p : α → Bool) (l : List α) : (early p l).Perm l := List.filter_append_perm p l

/-- Whatever meets `p` stands before whatever does not. -/
theorem mem_of_early {p : α → Bool} {l pre post : List α} {a b : α}
    (h : early p l = pre ++ a::post) (ha : p a = false) (hb : b ∈ l) (hp : p b) : b ∈ pre := by
  have hmem : b ∈ l.filter p := List.mem_filter.mpr ⟨hb,hp⟩
  rcases List.append_eq_append_iff.mp h with ⟨mid,hpre,-⟩ | ⟨mid,hfilter,hmid⟩
  · rw [hpre]
    exact List.mem_append_left mid hmem
  · cases mid with
    | nil => simpa [hfilter] using hmem
    | cons c mid =>
      obtain ⟨rfl,-⟩ := List.cons.inj hmid
      have : a ∈ l.filter p := by simp [hfilter]
      rw [(List.mem_filter.mp this).2] at ha
      cases ha

theorem of_mem_early {p : α → Bool} {l pre post : List α} {a b : α}
    (h : early p l = pre ++ a::post) (ha : p a) (hb : b ∈ pre) : p b := by
  rcases List.append_eq_append_iff.mp h with ⟨mid,-,hrest⟩ | ⟨mid,hfilter,-⟩
  · have : a ∈ l.filter (!p ·) := by simp [hrest]
    have hn := (List.mem_filter.mp this).2
    simp [ha] at hn
  · have : b ∈ l.filter p := by simp [hfilter,hb]
    exact (List.mem_filter.mp this).2

end Loop
