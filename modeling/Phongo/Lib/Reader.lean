import Mathlib.Control.Monad.Basic
import Mathlib.Tactic.Common

/-! Readers take what they need from the front of their input and leave the rest.
A format that marks where its parts end is read back whatever follows it. -/
namespace Reading

variable {σ α β : Type}

abbrev Reader (σ : Type) := StateT (List σ) Option

/-- The reader takes exactly `s` and yields `a`. -/
def Reads (r : Reader σ α) (s : List σ) (a : α) : Prop := ∀ rest, r (s ++ rest) = some (a,rest)

/-- The same where what follows begins with a symbol outside `p`. -/
def ReadsUntil (p : σ → Bool) (r : Reader σ α) (s : List σ) (a : α) : Prop :=
  ∀ b rest, p b = false → r (s ++ b::rest) = some (a,b::rest)

theorem Reads.pure (a : α) : Reads (pure a : Reader σ α) [] a := fun _ => rfl

theorem run_bind (r : Reader σ α) (f : α → Reader σ β) (input : List σ) :
    (r >>= f) input = (r input).bind fun x => f x.1 x.2 := rfl

theorem Reads.bind {r : Reader σ α} {f : α → Reader σ β} {s t : List σ} {a : α} {b : β}
    (hr : Reads r s a) (hf : Reads (f a) t b) : Reads (r >>= f) (s ++ t) b := by
  intro rest
  rw [run_bind,List.append_assoc,hr (t ++ rest)]
  exact hf rest

/-- The reader takes exactly `s` and yields `o`, or fails where that is nothing. -/
def Yields (r : Reader σ α) (s : List σ) (o : Option α) : Prop :=
  ∀ rest, r (s ++ rest) = o.map fun a => (a,rest)

theorem Reads.yields {r : Reader σ α} {s : List σ} {a : α} (h : Reads r s a) :
    Yields r s (some a) := h

theorem Yields.bind {r : Reader σ α} {f : α → Reader σ β} {s t : List σ} {o : Option α}
    {k : α → Option β} (hr : Yields r s o) (hf : ∀ a, Yields (f a) t (k a)) :
    Yields (r >>= f) (s ++ t) (o.bind k) := by
  intro rest
  rw [run_bind,List.append_assoc,hr (t ++ rest)]
  cases o with
  | none => rfl
  | some a => exact hf a rest

theorem Reads.bindYields {r : Reader σ α} {f : α → Reader σ β} {s t : List σ} {a : α}
    {o : Option β} (hr : Reads r s a) (hf : Yields (f a) t o) : Yields (r >>= f) (s ++ t) o := by
  intro rest
  rw [run_bind,List.append_assoc,hr (t ++ rest)]
  exact hf rest

/-- A reader that ends with what it computes from what was read. -/
theorem Yields.last {r : Reader σ α} {f : α → Reader σ β} {s : List σ} {o : Option α}
    {g : α → β} (hr : Yields r s o) (hf : ∀ a, f a = Pure.pure (g a)) :
    Yields (r >>= f) s (o.map g) := by
  intro rest
  rw [run_bind,hr rest]
  cases o with
  | none => rfl
  | some a => exact congrArg (fun m : Reader σ β => m rest) (hf a)

/-- What follows begins outside `p`. -/
def Ends (p : σ → Bool) (s : List σ) : Prop := ∃ b, s.head? = some b ∧ p b = false

theorem Ends.append {p : σ → Bool} {s : List σ} (h : Ends p s) (t : List σ) :
    Ends p (s ++ t) := by
  obtain ⟨b,hb,hp⟩ := h
  exact ⟨b,by simp [List.head?_append,hb],hp⟩

theorem ReadsUntil.bind {p : σ → Bool} {r : Reader σ α} {f : α → Reader σ β} {s t : List σ}
    {a : α} {b : β} (hr : ReadsUntil p r s a) (ht : Ends p t) (hf : Reads (f a) t b) :
    Reads (r >>= f) (s ++ t) b := by
  intro rest
  obtain ⟨c,hc,hp⟩ := ht
  obtain ⟨t',rfl⟩ := List.head?_eq_some_iff.mp hc
  rw [run_bind,List.append_assoc,List.cons_append,hr c (t' ++ rest) hp]
  exact hf rest

theorem ReadsUntil.bindYields {p : σ → Bool} {r : Reader σ α} {f : α → Reader σ β}
    {s t : List σ} {a : α} {o : Option β} (hr : ReadsUntil p r s a) (ht : Ends p t)
    (hf : Yields (f a) t o) : Yields (r >>= f) (s ++ t) o := by
  intro rest
  obtain ⟨c,hc,hp⟩ := ht
  obtain ⟨t',rfl⟩ := List.head?_eq_some_iff.mp hc
  rw [run_bind,List.append_assoc,List.cons_append,hr c (t' ++ rest) hp]
  exact hf rest

theorem Reads.last {r : Reader σ α} {f : α → Reader σ β} {s : List σ} {a : α} {b : β}
    (hr : Reads r s a) (hf : f a = Pure.pure b) : Reads (r >>= f) s b := by
  have h := hr.bind (f:=f) (t:=[]) (b:=b) (by rw [hf]; exact Reads.pure b)
  rwa [List.append_nil] at h

section Symbols
variable [BEq σ] [LawfulBEq σ]

def expect (s : List σ) : Reader σ Unit := fun input =>
  if s.isPrefixOf input then some ((),input.drop s.length) else none

theorem reads_expect (s : List σ) : Reads (expect s) s () := by
  intro rest
  have hp : s.isPrefixOf (s ++ rest) = true :=
    List.isPrefixOf_iff_prefix.mpr (List.prefix_append s rest)
  simp [expect,hp]

end Symbols

def take (n : ℕ) : Reader σ (List σ) := fun input =>
  if n ≤ input.length then some (input.take n,input.drop n) else none

theorem reads_take (s : List σ) : Reads (take s.length) s s := by
  intro rest
  simp [take]

/-- As many symbols of `p` as there are. -/
def takeWhile (p : σ → Bool) : Reader σ (List σ) := fun input =>
  some (input.takeWhile p,input.dropWhile p)

theorem reads_takeWhile {p : σ → Bool} {s : List σ} (h : ∀ b ∈ s, p b = true) :
    ReadsUntil p (takeWhile p) s s := by
  intro b rest hb
  simp only [takeWhile]
  rw [List.takeWhile_append_of_pos h,List.dropWhile_append_of_pos h]
  simp [hb]

end Reading
