import Mathlib.Data.List.Induction
import Mathlib.Data.List.Infix
import Mathlib.Tactic.Common
import Phongo.FieldPath

/-! The field path as a stack: what its two arrays hold after any calls, of which pops never
exceed pushes. -/
namespace Phongo
namespace FieldPath

inductive Call
  | push (element : CString) (type : ItemType)
  | pop
  | writeItem (element : CString)
  | writeType (type : ItemType)

def call (fp : FieldPath) : Call → FieldPath
  | .push element type => fp.push element type
  | .pop => fp.pop
  | .writeItem element => fp.writeItemAtCurrentLevel element
  | .writeType type => fp.writeTypeAtCurrentLevel type

def Call.isPush : Call → Bool
  | .push _ _ => true
  | _ => false

def Call.isPop : Call → Bool
  | .pop => true
  | _ => false

def pushes (calls : List Call) : ℕ := calls.countP Call.isPush
def pops (calls : List Call) : ℕ := calls.countP Call.isPop

/-- At no point have there been more pops than pushes. -/
def Balanced (calls : List Call) : Prop := ∀ before, before <+: calls → pops before ≤ pushes before

/-- A push opens a level, a pop closes the last one opened. -/
def reopen (levels : List (CString × ItemType)) : Call → List (CString × ItemType)
  | .push element type => levels ++ [(element,type)]
  | .pop => levels.dropLast
  | .writeItem _ | .writeType _ => levels

/-- The keys and types of the pushes that are open, outermost first. -/
def openPushes (calls : List Call) : List (CString × ItemType) := calls.foldl reopen []

/-- What `php_phongo_field_path_alloc` becomes. -/
def after (calls : List Call) : FieldPath := calls.foldl call alloc

/-- The arrays hold exactly the open levels, apart from the slot at the current level. -/
structure Represents (fp : FieldPath) (levels : List (CString × ItemType)) : Prop where
  length_elements : fp.elements.length = fp.allocatedSize
  length_types : fp.elementTypes.length = fp.allocatedSize
  size_eq : fp.size = levels.length
  size_le : fp.size ≤ fp.allocatedSize
  elements_below : fp.elements.take fp.size = levels.map fun l => some l.1
  types_below : fp.elementTypes.take fp.size = levels.map Prod.snd
  elements_above : ∀ i, fp.size < i → i < fp.allocatedSize → fp.elements[i]? = some none
  types_above : ∀ i, fp.size < i → i < fp.allocatedSize → fp.elementTypes[i]? = some .none

theorem represents_alloc : alloc.Represents [] := by
  constructor <;> simp [alloc]

theorem growTo_eq {α : Type} {xs : List α} {level n : ℕ} (a : α) (hlen : xs.length = level)
    (h : level ≤ n) : growTo xs level n a = xs ++ List.replicate (n - level) a := by
  subst hlen
  unfold growTo
  rw [List.take_of_length_le h,List.take_left]

theorem getElem?_append_replicate {α : Type} {xs : List α} {n i : ℕ} (a : α) (h : xs.length ≤ i)
    (hi : i < xs.length + n) : (xs ++ List.replicate n a)[i]? = some a := by
  have hin : i - xs.length < n := by omega
  rw [List.getElem?_append_right h,List.getElem?_replicate,if_pos hin]

theorem take_pred {α β : Type} {xs : List α} {ys : List β} {f : β → α} {n : ℕ}
    (h : xs.take n = ys.map f) (hn : n = ys.length) : xs.take (n - 1) = ys.dropLast.map f := by
  have htake := congrArg (List.take (n - 1)) h
  rw [List.take_take,Nat.min_eq_left (Nat.sub_le n 1)] at htake
  rw [htake,List.dropLast_eq_take,List.map_take,hn]

section Grow
variable {fp : FieldPath} {levels : List (CString × ItemType)}

theorem Represents.ensureAllocation_eq (h : fp.Represents levels)
    (hfull : ¬ fp.size < fp.allocatedSize) :
    fp.ensureAllocation fp.size = { fp with
      allocatedSize := fp.size + fieldPathExpansion
      elements := fp.elements ++ List.replicate fieldPathExpansion none
      elementTypes := fp.elementTypes ++ List.replicate fieldPathExpansion .none } := by
  have hsize : fp.size = fp.allocatedSize := by
    have hle := h.size_le
    omega
  have hn : fp.size ≤ fp.size + fieldPathExpansion := Nat.le_add_right _ _
  have hrest : fp.size + fieldPathExpansion - fp.size = fieldPathExpansion := by omega
  have helements := growTo_eq none (h.length_elements.trans hsize.symm) hn
  have htypes := growTo_eq ItemType.none (h.length_types.trans hsize.symm) hn
  rw [hrest] at helements htypes
  simp only [FieldPath.ensureAllocation,ge_iff_le,Nat.le_of_not_lt hfull,if_true,helements,htypes]

theorem Represents.ensureAllocation_keeps (h : fp.Represents levels) :
    ∀ i, i < fp.allocatedSize →
      (fp.ensureAllocation fp.size).elements[i]? = fp.elements[i]? ∧
        (fp.ensureAllocation fp.size).elementTypes[i]? = fp.elementTypes[i]? := by
  intro i hi
  by_cases hlt : fp.size < fp.allocatedSize
  · have hge : ¬ fp.size ≥ fp.allocatedSize := by omega
    simp [FieldPath.ensureAllocation,hge]
  · rw [h.ensureAllocation_eq hlt]
    have he := h.length_elements
    have ht := h.length_types
    simp [List.getElem?_append_left,he,ht,hi]

theorem Represents.ensureAllocation (h : fp.Represents levels) :
    (fp.ensureAllocation fp.size).Represents levels ∧
      (fp.ensureAllocation fp.size).size = fp.size ∧
      fp.size < (fp.ensureAllocation fp.size).allocatedSize := by
  by_cases hlt : fp.size < fp.allocatedSize
  · have hge : ¬ fp.size ≥ fp.allocatedSize := by omega
    simp only [FieldPath.ensureAllocation,hge,if_false]
    exact ⟨h,trivial,hlt⟩
  · rw [h.ensureAllocation_eq hlt]
    have hsize : fp.size = fp.allocatedSize := by
      have hle := h.size_le
      omega
    have helements : fp.size ≤ fp.elements.length := by rw [h.length_elements]; omega
    have htypes : fp.size ≤ fp.elementTypes.length := by rw [h.length_types]; omega
    refine ⟨⟨?_,?_,h.size_eq,Nat.le_add_right _ _,?_,?_,?_,?_⟩,rfl,?_⟩
    · simp [h.length_elements,hsize]
    · simp [h.length_types,hsize]
    · rw [List.take_append_of_le_length helements,h.elements_below]
    · rw [List.take_append_of_le_length htypes,h.types_below]
    · intro i hi hlt'
      refine getElem?_append_replicate none ?_ ?_ <;> rw [h.length_elements,← hsize]
      · exact hi.le
      · exact hlt'
    · intro i hi hlt'
      refine getElem?_append_replicate ItemType.none ?_ ?_ <;> rw [h.length_types,← hsize]
      · exact hi.le
      · exact hlt'
    · simp [fieldPathExpansion]

end Grow

section Calls
variable {fp : FieldPath} {levels : List (CString × ItemType)}

/-- The slot at the current level is free for any key. -/
theorem Represents.setElement (h : fp.Represents levels) (element : Option CString) :
    { fp with elements := fp.elements.set fp.size element }.Represents levels := by
  refine ⟨?_,h.length_types,h.size_eq,h.size_le,?_,h.types_below,?_,h.types_above⟩
  · simpa using h.length_elements
  · dsimp only
    rw [List.take_set_of_le le_rfl]
    exact h.elements_below
  · intro i hi hlt
    dsimp only at hi ⊢
    rw [List.getElem?_set_ne hi.ne]
    exact h.elements_above i hi hlt

theorem Represents.setType (h : fp.Represents levels) (type : ItemType) :
    { fp with elementTypes := fp.elementTypes.set fp.size type }.Represents levels := by
  refine ⟨h.length_elements,?_,h.size_eq,h.size_le,h.elements_below,?_,h.elements_above,?_⟩
  · simpa using h.length_types
  · dsimp only
    rw [List.take_set_of_le le_rfl]
    exact h.types_below
  · intro i hi hlt
    dsimp only at hi ⊢
    rw [List.getElem?_set_ne hi.ne]
    exact h.types_above i hi hlt

theorem Represents.writeItem (h : fp.Represents levels) (element : CString) :
    (fp.writeItemAtCurrentLevel element).Represents levels :=
  h.ensureAllocation.1.setElement (some element)

theorem Represents.writeType (h : fp.Represents levels) (type : ItemType) :
    (fp.writeTypeAtCurrentLevel type).Represents levels :=
  h.ensureAllocation.1.setType type

/-- After both writes the slot at the current level holds the pushed key and type. -/
theorem Represents.written (h : fp.Represents levels) (element : CString) (type : ItemType) :
    let fp' := (fp.writeItemAtCurrentLevel element).writeTypeAtCurrentLevel type
    fp'.size < fp'.allocatedSize ∧ fp'.elements[fp'.size]? = some (some element) ∧
      fp'.elementTypes[fp'.size]? = some type := by
  obtain ⟨hr,hs,hlt⟩ := h.ensureAllocation
  have hroom : (fp.writeItemAtCurrentLevel element).size <
      (fp.writeItemAtCurrentLevel element).allocatedSize := by
    rw [size_writeItem]
    exact hlt
  have helements : (fp.ensureAllocation fp.size).size <
      (fp.ensureAllocation fp.size).elements.length := by
    rw [hr.length_elements,hs]
    exact hlt
  have htypes : (fp.ensureAllocation fp.size).size <
      (fp.ensureAllocation fp.size).elementTypes.length := by
    rw [hr.length_types,hs]
    exact hlt
  rw [writeType_elements hroom]
  exact ⟨hroom,List.getElem?_set_self helements,List.getElem?_set_self htypes⟩

theorem Represents.push (h : fp.Represents levels) (element : CString) (type : ItemType) :
    (fp.push element type).Represents (levels ++ [(element,type)]) := by
  have hr := (h.writeItem element).writeType type
  obtain ⟨hroom,helement,htype⟩ := h.written element type
  unfold FieldPath.push enter
  refine ⟨hr.length_elements,hr.length_types,?_,hroom,?_,?_,?_,?_⟩
  · rw [List.length_append,← hr.size_eq]
    rfl
  · dsimp only
    rw [List.take_add_one,hr.elements_below,helement,List.map_append]
    rfl
  · dsimp only
    rw [List.take_add_one,hr.types_below,htype,List.map_append]
    rfl
  · exact fun i hi hlt => hr.elements_above i (Nat.lt_of_succ_lt hi) hlt
  · exact fun i hi hlt => hr.types_above i (Nat.lt_of_succ_lt hi) hlt

theorem Represents.clear (h : fp.Represents levels) : fp.clearSlot.Represents levels :=
  (h.setElement none).setType .none

/-- Closing a level leaves its slot as it is, and clears the one above. -/
theorem Represents.leave (h : fp.Represents levels) (hroom : fp.size < fp.allocatedSize) :
    fp.clearSlot.leave.Represents levels.dropLast := by
  have hsize := h.size_eq
  have hc := h.clear
  have hbelow : fp.size - 1 ≤ fp.size := Nat.sub_le _ _
  have helements : fp.size < fp.elements.length := by rw [h.length_elements]; exact hroom
  have htypes : fp.size < fp.elementTypes.length := by rw [h.length_types]; exact hroom
  refine ⟨hc.length_elements,hc.length_types,?_,hbelow.trans hc.size_le,?_,?_,?_,?_⟩
  · rw [List.length_dropLast,← hsize]
    rfl
  · exact take_pred hc.elements_below hc.size_eq
  · exact take_pred hc.types_below hc.size_eq
  · intro i hi hlt
    have hle : fp.size ≤ i := by
      simp only [FieldPath.leave,FieldPath.clearSlot] at hi
      omega
    rcases hle.eq_or_lt with rfl | hgt
    · exact List.getElem?_set_self helements
    · exact hc.elements_above i hgt hlt
  · intro i hi hlt
    have hle : fp.size ≤ i := by
      simp only [FieldPath.leave,FieldPath.clearSlot] at hi
      omega
    rcases hle.eq_or_lt with rfl | hgt
    · exact List.getElem?_set_self htypes
    · exact hc.types_above i hgt hlt

theorem Represents.pop (h : fp.Represents levels) : fp.pop.Represents levels.dropLast := by
  obtain ⟨hr,hs,hlt⟩ := h.ensureAllocation
  have hroom : (fp.ensureAllocation fp.size).size < (fp.ensureAllocation fp.size).allocatedSize := by
    rw [hs]
    exact hlt
  exact (hr.leave hroom).clear

theorem Represents.call (h : fp.Represents levels) (c : Call) :
    (fp.call c).Represents (reopen levels c) := by
  cases c with
  | push element type => exact h.push element type
  | pop => exact h.pop
  | writeItem element => exact h.writeItem element
  | writeType type => exact h.writeType type

end Calls

section Runs
variable {calls : List Call}

theorem after_append (calls : List Call) (c : Call) : after (calls ++ [c]) = (after calls).call c :=
  List.foldl_append

theorem openPushes_append (calls : List Call) (c : Call) :
    openPushes (calls ++ [c]) = reopen (openPushes calls) c := List.foldl_append

theorem Balanced.init {c : Call} (h : Balanced (calls ++ [c])) : Balanced calls :=
  fun before hb => h before (hb.trans (List.prefix_append calls [c]))

theorem represents_after (calls : List Call) : (after calls).Represents (openPushes calls) := by
  induction calls using List.reverseRecOn with
  | nil => exact represents_alloc
  | append_singleton calls c ih =>
    rw [after_append,openPushes_append]
    exact ih.call c

theorem length_openPushes (h : Balanced calls) :
    (openPushes calls).length + pops calls = pushes calls := by
  induction calls using List.reverseRecOn with
  | nil => rfl
  | append_singleton calls c ih =>
    have hcount := ih h.init
    have hall := h _ List.prefix_rfl
    rw [openPushes_append]
    simp only [pops,pushes,List.countP_append] at hcount hall ⊢
    cases c with
    | push element type =>
      simp only [reopen,List.length_append,List.length_singleton,List.countP_singleton,
        Call.isPush,Call.isPop] at hall ⊢
      simp
      omega
    | pop =>
      simp only [reopen,List.length_dropLast,List.countP_singleton,Call.isPush,Call.isPop]
        at hall ⊢
      simp at hall ⊢
      omega
    | writeItem | writeType => exact hcount

/-- After any calls of which pops never exceed pushes, the arrays hold the open pushes and nothing
above the current level, the size counts them, and growth changes no slot. -/
theorem fieldPath_isStack (h : Balanced calls) :
    (after calls).Represents (openPushes calls) ∧
      (after calls).size + pops calls = pushes calls ∧
      ∀ i, i < (after calls).allocatedSize →
        ((after calls).ensureAllocation (after calls).size).elements[i]? =
            (after calls).elements[i]? ∧
          ((after calls).ensureAllocation (after calls).size).elementTypes[i]? =
            (after calls).elementTypes[i]? := by
  have hr := represents_after calls
  refine ⟨hr,?_,hr.ensureAllocation_keeps⟩
  rw [hr.size_eq]
  exact length_openPushes h

/-- A level opened and closed again, with a key written at it. -/
theorem isStack_afterPop :
    (after [.push (CString.lit "a") .document,.writeItem (CString.lit "b"),.pop]).Represents [] := by
  have hbalanced : Balanced
      [.push (CString.lit "a") .document,.writeItem (CString.lit "b"),.pop] := by
    intro before hb
    have hmem := (List.mem_inits _ _).mpr hb
    simp only [List.inits,List.map,List.mem_cons,List.not_mem_nil,or_false] at hmem
    rcases hmem with rfl | rfl | rfl | rfl <;> decide
  exact (fieldPath_isStack hbalanced).1

end Runs

end FieldPath
end Phongo
