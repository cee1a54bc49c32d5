import Mathlib.Tactic.Common
import Phongo.FieldPath

/-! The memory that `php_phongo_field_path_as_string` touches. -/
namespace Phongo
namespace FieldPath

/-- The slots both loops read; without elements nothing is read. -/
def slotsRead (fp : FieldPath) : List ℕ :=
  if fp.elements = [] then [] else List.range (fp.size+1)

/-- What `length` counts for the elements, a dot after each. -/
def joinedLength : List CString → ℕ
  | [] => 0
  | e::rest => 1 + e.bytes.length + joinedLength rest

/-- The argument of `emalloc`. -/
def bufferLength (fp : FieldPath) : ℕ := 1 + joinedLength fp.asString

/-- The offsets the second loop writes from `ptr` on: each element with its NUL and a dot over the
NUL, in the end a NUL before `ptr`. -/
def offsetsFrom (ptr : ℤ) : List CString → List ℤ
  | [] => [ptr - 1]
  | e::rest =>
    let dot := ptr + e.bytes.length
    (List.range (e.bytes.length+1)).map (fun i : ℕ => ptr + i) ++ dot::offsetsFrom (dot+1) rest

def offsetsWritten (fp : FieldPath) : List ℤ :=
  if fp.elements = [] then [] else offsetsFrom 0 fp.asString

/-- The rendering reads allocated slots only, and writes inside the buffer only. -/
structure InBounds (fp : FieldPath) : Prop where
  reads : ∀ i ∈ fp.slotsRead, i < fp.allocatedSize
  writes : ∀ o ∈ fp.offsetsWritten, 0 ≤ o ∧ o < fp.bufferLength

theorem offsetsFrom_lt (elements : List CString) (ptr : ℤ) :
    ∀ o ∈ offsetsFrom ptr elements, o < ptr + (1 + joinedLength elements : ℕ) := by
  induction elements generalizing ptr with
  | nil =>
    intro o ho
    have heq := List.mem_singleton.mp ho
    omega
  | cons e rest ih =>
    intro o ho
    have hlength : joinedLength (e::rest) = 1 + e.bytes.length + joinedLength rest := rfl
    rcases List.mem_append.mp ho with h | h
    · obtain ⟨i,hi,rfl⟩ := List.mem_map.mp h
      have hlt := List.mem_range.mp hi
      omega
    · rcases List.mem_cons.mp h with rfl | h
      · omega
      · have hlt := ih _ o h
        omega

/-- With an element to end at, the last NUL stands inside the buffer. -/
theorem offsetsFrom_ge (elements : List CString) (ptr : ℤ) :
    ∀ o ∈ offsetsFrom ptr elements, ptr - 1 ≤ o ∧ (elements ≠ [] → ptr ≤ o) := by
  induction elements generalizing ptr with
  | nil =>
    intro o ho
    have heq := List.mem_singleton.mp ho
    exact ⟨by omega,fun h => absurd rfl h⟩
  | cons e rest ih =>
    intro o ho
    have hge : ptr ≤ o := by
      rcases List.mem_append.mp ho with h | h
      · obtain ⟨i,hi,rfl⟩ := List.mem_map.mp h
        omega
      · rcases List.mem_cons.mp h with rfl | h
        · omega
        · have hle := (ih _ o h).1
          omega
    exact ⟨by omega,fun _ => hge⟩

theorem inBounds_iff (fp : FieldPath) :
    fp.InBounds ↔ fp.elements = [] ∨ (fp.size < fp.allocatedSize ∧ fp.asString ≠ []) := by
  by_cases hnull : fp.elements = []
  · refine iff_of_true ⟨?_,?_⟩ (.inl hnull)
    · simp [slotsRead,hnull]
    · simp [offsetsWritten,hnull]
  · have hreads : fp.slotsRead = List.range (fp.size+1) := by simp [slotsRead,hnull]
    have hwrites : fp.offsetsWritten = offsetsFrom 0 fp.asString := by simp [offsetsWritten,hnull]
    constructor
    · intro h
      refine .inr ⟨h.reads fp.size ?_,fun hempty => ?_⟩
      · rw [hreads,List.mem_range]
        omega
      · -- only the NUL before the buffer is written
        have hnul := h.writes (-1) (by rw [hwrites,hempty]; exact List.mem_singleton.mpr rfl)
        omega
    · intro h
      obtain ⟨hsize,hne⟩ := h.resolve_left hnull
      refine ⟨fun i hi => ?_,fun o ho => ?_⟩
      · rw [hreads,List.mem_range] at hi
        omega
      · rw [hwrites] at ho
        have hlt := offsetsFrom_lt fp.asString 0 o ho
        exact ⟨(offsetsFrom_ge fp.asString 0 o ho).2 hne,by simpa [bufferLength] using hlt⟩

/-- Once the key at the current level is written, the path can be rendered. -/
theorem Holds.inBounds_writeItem {fp : FieldPath} {path : List CString} (h : fp.Holds path)
    (element : CString) : (fp.writeItemAtCurrentLevel element).InBounds := by
  rw [inBounds_iff]
  refine .inr ⟨?_,?_⟩
  · rw [size_writeItem]
    exact writeItem_allocated h element
  · rw [h.asString_writeItem]
    exact List.concat_ne_nil element path

end FieldPath
end Phongo
