import Mathlib.Tactic.Common
import Phongo.Php.Bytes

/-! The field path: a growable stack of the keys leading to the value being visited. -/
namespace Phongo

/-- `php_phongo_bson_field_path_item_types` -/
inductive ItemType
  | none | array | document
  deriving DecidableEq

/-- `PHONGO_FIELD_PATH_EXPANSION` -/
def fieldPathExpansion : ℕ := 8

/-- `php_phongo_field_path`; the two arrays are parallel. -/
structure FieldPath where
  elements : List (Option CString)
  elementTypes : List ItemType
  allocatedSize : ℕ
  size : ℕ
  deriving DecidableEq

namespace FieldPath

/-- `erealloc` to `n` slots, of which those from `level` on are then cleared. -/
def growTo {α : Type} (xs : List α) (level n : ℕ) (clear : α) : List α :=
  (xs.take n ++ List.replicate (n - xs.length) clear).take level ++
    List.replicate (n - level) clear

def alloc : FieldPath := ⟨[],[],0,0⟩

def ensureAllocation (fp : FieldPath) (level : ℕ) : FieldPath :=
  if level ≥ fp.allocatedSize then
    let n := fp.size + fieldPathExpansion
    { fp with
      allocatedSize := n
      elements := growTo fp.elements level n none
      elementTypes := growTo fp.elementTypes level n .none }
  else fp

def writeItemAtCurrentLevel (fp : FieldPath) (element : CString) : FieldPath :=
  let fp := fp.ensureAllocation fp.size
  { fp with elements := fp.elements.set fp.size (some element) }

def writeTypeAtCurrentLevel (fp : FieldPath) (type : ItemType) : FieldPath :=
  let fp := fp.ensureAllocation fp.size
  { fp with elementTypes := fp.elementTypes.set fp.size type }

/-- `field_path->size++` -/
def enter (fp : FieldPath) : FieldPath := { fp with size := fp.size + 1 }

/-- `field_path->size--`, as the encoder does it: the slot is left as it is. -/
def leave (fp : FieldPath) : FieldPath := { fp with size := fp.size - 1 }

def push (fp : FieldPath) (element : CString) (type : ItemType) : FieldPath :=
  ((fp.writeItemAtCurrentLevel element).writeTypeAtCurrentLevel type).enter

def clearSlot (fp : FieldPath) : FieldPath :=
  { fp with
    elements := fp.elements.set fp.size none
    elementTypes := fp.elementTypes.set fp.size .none }

def pop (fp : FieldPath) : FieldPath :=
  ((fp.ensureAllocation fp.size).clearSlot.leave).clearSlot

/-- The elements `php_phongo_field_path_as_string` joins with dots: every non-NULL slot
up to and including the current level. -/
def asString (fp : FieldPath) : List CString :=
  (fp.elements.take (fp.size+1)).filterMap id

/-- The open levels, outermost first. -/
def opened (fp : FieldPath) : List CString := (fp.elements.take fp.size).filterMap id

/-- `fp` is a well-formed stack whose open levels are `path`. -/
structure Holds (fp : FieldPath) (path : List CString) : Prop where
  length_elements : fp.elements.length = fp.allocatedSize
  length_types : fp.elementTypes.length = fp.allocatedSize
  size_eq : fp.size = path.length
  size_le : fp.size ≤ fp.allocatedSize
  take_size : fp.elements.take fp.size = path.map some

theorem length_growTo {α : Type} (xs : List α) (level n : ℕ) (a : α) (h : level ≤ n) :
    (growTo xs level n a).length = n := by
  simp [growTo]; omega

theorem take_growTo {α : Type} (xs : List α) (n : ℕ) (a : α) (h : xs.length ≤ n) :
    (growTo xs xs.length n a).take xs.length = xs := by
  simp [growTo,List.take_of_length_le h]

theorem alloc_holds : alloc.Holds [] := by
  constructor <;> simp [alloc]

variable {fp : FieldPath} {path : List CString}

theorem Holds.ensureAllocation (h : fp.Holds path) :
    (fp.ensureAllocation fp.size).Holds path ∧
      (fp.ensureAllocation fp.size).size = fp.size ∧
      fp.size < (fp.ensureAllocation fp.size).allocatedSize := by
  unfold FieldPath.ensureAllocation
  split
  · rename_i hge
    have he : fp.elements.length = fp.size := by have := h.length_elements; have := h.size_le; omega
    have ht : fp.elementTypes.length = fp.size := by have := h.length_types; have := h.size_le; omega
    have hn : fp.size ≤ fp.size + fieldPathExpansion := by omega
    refine ⟨⟨length_growTo _ _ _ _ hn,length_growTo _ _ _ _ hn,h.size_eq,hn,?_⟩,rfl,?_⟩
    · have hg := take_growTo fp.elements (fp.size + fieldPathExpansion) none (by omega)
      rw [he] at hg
      calc
        _ = fp.elements := hg
        _ = fp.elements.take fp.size := (List.take_of_length_le (by omega)).symm
        _ = _ := h.take_size
    · simp [fieldPathExpansion]
  · rename_i hlt
    exact ⟨h,rfl,by omega⟩

theorem Holds.writeItem (h : fp.Holds path) (e : CString) :
    (fp.writeItemAtCurrentLevel e).Holds path := by
  obtain ⟨hh,hs,hlt⟩ := h.ensureAllocation
  refine ⟨?_,hh.length_types,hh.size_eq,hh.size_le,?_⟩
  · simpa [writeItemAtCurrentLevel] using hh.length_elements
  · simpa [writeItemAtCurrentLevel,List.take_set_of_le] using hh.take_size

@[simp] theorem size_writeItem (fp : FieldPath) (e : CString) :
    (fp.writeItemAtCurrentLevel e).size = fp.size := by
  unfold writeItemAtCurrentLevel FieldPath.ensureAllocation
  split <;> rfl

theorem writeItem_allocated (h : fp.Holds path) (e : CString) :
    fp.size < (fp.writeItemAtCurrentLevel e).allocatedSize := h.ensureAllocation.2.2

theorem Holds.opened (h : fp.Holds path) : fp.opened = path := by
  simp [FieldPath.opened,h.take_size,List.filterMap_map]

/-- The element just written is the next one of the path. -/
theorem Holds.take_writeItem (h : fp.Holds path) (e : CString) :
    (fp.writeItemAtCurrentLevel e).elements.take (fp.size + 1) = (path ++ [e]).map some := by
  obtain ⟨hh,hs,hlt⟩ := h.ensureAllocation
  have hlen : fp.size < (fp.ensureAllocation fp.size).elements.length := by
    rw [hh.length_elements]; exact hlt
  have ht := hh.take_size
  rw [hs] at ht
  rw [List.take_add_one,List.map_append,writeItemAtCurrentLevel,hs]
  simp [List.take_set_of_le,ht,hlen]

theorem Holds.asString_writeItem (h : fp.Holds path) (e : CString) :
    (fp.writeItemAtCurrentLevel e).asString = path ++ [e] := by
  rw [FieldPath.asString,size_writeItem,h.take_writeItem,List.filterMap_map]
  simp

theorem writeType_elements (h : fp.size < fp.allocatedSize) (t : ItemType) :
    fp.writeTypeAtCurrentLevel t = { fp with elementTypes := fp.elementTypes.set fp.size t } := by
  have hge : ¬ fp.size ≥ fp.allocatedSize := by omega
  simp [writeTypeAtCurrentLevel,FieldPath.ensureAllocation,hge]

theorem Holds.push (h : fp.Holds path) (e : CString) (t : ItemType) :
    (fp.push e t).Holds (path ++ [e]) := by
  have hw := h.writeItem e
  have hlt := writeItem_allocated h e
  have hsize : fp.size < (fp.writeItemAtCurrentLevel e).allocatedSize := hlt
  unfold FieldPath.push
  rw [writeType_elements (by simpa using hlt)]
  refine ⟨hw.length_elements,?_,?_,?_,?_⟩
  · simpa [enter] using hw.length_types
  · simp [enter,h.size_eq]
  · simp only [enter,size_writeItem]; omega
  · simpa [enter] using h.take_writeItem e

theorem Holds.leave {e : CString} (h : fp.Holds (path ++ [e])) : fp.leave.Holds path := by
  have hs : fp.size = path.length + 1 := by simpa using h.size_eq
  refine ⟨h.length_elements,h.length_types,by simp [FieldPath.leave,hs],?_,?_⟩
  · have := h.size_le
    simp only [FieldPath.leave]; omega
  · have ht := congrArg (List.take path.length) h.take_size
    rw [List.take_take,hs] at ht
    simpa [FieldPath.leave,hs] using ht

theorem Holds.clearSlot (h : fp.Holds path) : fp.clearSlot.Holds path := by
  refine ⟨?_,?_,h.size_eq,h.size_le,?_⟩
  · simpa [FieldPath.clearSlot] using h.length_elements
  · simpa [FieldPath.clearSlot] using h.length_types
  · simpa [FieldPath.clearSlot,List.take_set_of_le] using h.take_size

theorem Holds.pop {e : CString} (h : fp.Holds (path ++ [e])) : fp.pop.Holds path :=
  h.ensureAllocation.1.clearSlot.leave.clearSlot

end FieldPath
end Phongo
