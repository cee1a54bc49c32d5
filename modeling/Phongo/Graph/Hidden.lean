import Mathlib.Tactic.Common
import Phongo.Graph.Encode

/-! Private and protected properties: what they hold does not show in an encoding. -/
namespace Phongo

/-- The key of a private or protected property, mangled with a leading NUL. -/
def Key.IsHidden : Key → Prop
  | .int _ => False
  | .str s => s.head? = some 0

namespace Graph
variable {T O R V : Type}

/-- The same entry of a table, but for what a private or protected property holds. -/
def SameVisible (entry entry' : Key × Slot T O R) : Prop :=
  entry.1 = entry'.1 ∧ (entry.1.IsHidden ∨ entry.2 = entry'.2)

/-- The same heap, but for what private and protected properties hold, which may be any value of
the heap. -/
structure EqualButHidden (h h' : PhpHeap T O R) : Prop where
  elements : ∀ t, List.Forall₂ SameVisible (h.elements t) (h'.elements t)
  objects : h.objects = h'.objects
  references : h.references = h'.references

/-- The loop either skips such a key or ends with it. -/
theorem inspectKey_of_isHidden {key : Key} (hk : key.IsHidden) (fromProperties skip : Bool) :
    inspectKey fromProperties skip key = .skip ∨ inspectKey fromProperties skip key = .abort := by
  cases key with
  | int n => exact hk.elim
  | str s =>
    have hhead : s.head? = some 0 := hk
    have hz : (0 : UInt8) ∈ s := List.mem_of_mem_head? hhead
    cases fromProperties with
    | true => exact .inl (by simp [inspectKey,hhead])
    | false => exact .inr (by simp [inspectKey,hz])

section Heaps
variable {h h' : PhpHeap T O R} (hh : EqualButHidden h h')
include hh

theorem keysAreIndices_eq (t : T) :
    keysAreIndices 0 (h.elements t) = keysAreIndices 0 (h'.elements t) := by
  have hall : ∀ els els' : List (Key × Slot T O R), List.Forall₂ SameVisible els els' →
      ∀ n, keysAreIndices n els = keysAreIndices n els' := by
    intro els els' hels
    induction hels with
    | nil => exact fun n => rfl
    | cons he hrest ih =>
      rename_i entry entry' _ _
      obtain ⟨key,slot⟩ := entry
      obtain ⟨key',slot'⟩ := entry'
      obtain ⟨rfl,-⟩ : key = key' ∧ _ := he
      intro n
      cases key with
      | int i => rw [keysAreIndices,keysAreIndices,ih]
      | str s => rfl
  exact hall _ _ (hh.elements t) 0

theorem deref_eq : deref h = deref h' := by
  funext slot
  cases slot with
  | value v => rfl
  | reference r => exact congrFun hh.references r

/-- The loop over a table does the same on both heaps. -/
theorem appendSlots_eq (append : CString → HeapValue T O → Encode T O Doc)
    (fromProperties skip : Bool) (t : T) :
    appendSlots h append fromProperties skip t = appendSlots h' append fromProperties skip t := by
  have hall : ∀ els els' : List (Key × Slot T O R), List.Forall₂ SameVisible els els' →
      appendAll (fun key slot => append key (deref h' slot)) fromProperties skip els =
        appendAll (fun key slot => append key (deref h' slot)) fromProperties skip els' := by
    intro els els' hels
    induction hels with
    | nil => rfl
    | cons he hrest ih =>
      rename_i entry entry' _ _
      obtain ⟨key,slot⟩ := entry
      obtain ⟨key',slot'⟩ := entry'
      obtain ⟨rfl,hslot⟩ : key = key' ∧ _ := he
      funext addId
      rw [appendAll,appendAll]
      rcases hslot with hk | hslot
      · rcases inspectKey_of_isHidden hk fromProperties skip with hkey | hkey
        · rw [hkey]
          exact congrFun ih addId
        · rw [hkey]
      · have heq : slot = slot' := hslot
        rw [heq]
        cases inspectKey fromProperties skip key with
        | skip => exact congrFun ih addId
        | abort => rfl
        | append name => rw [ih]
  rw [appendSlots,appendSlots,deref_eq hh]
  exact hall _ _ (hh.elements t)

theorem isArrayOrStdClass_eq : isArrayOrStdClass h = isArrayOrStdClass h' := by
  funext v
  cases v with
  | plain p => cases p <;> rfl
  | array t => rfl
  | object o => rw [isArrayOrStdClass,isArrayOrStdClass,hh.objects]

theorem isBsonArray_eq : isBsonArray h = isBsonArray h' := by
  funext v
  cases v with
  | plain p => cases p <;> rfl
  | array t => exact keysAreIndices_eq hh t
  | object o => rfl

theorem serialized_eq (ce : ClassEntry) (returned : Returned T O)
    (encode : HeapValue T O → Encode T O Doc) :
    serialized h ce returned encode = serialized h' ce returned encode := by
  have hname : classOrTypeName h = classOrTypeName h' := by
    funext v
    cases v with
    | plain | array => rfl
    | object o => rw [classOrTypeName,classOrTypeName,hh.objects]
  have hthrow : throwExpectedArray h ce = throwExpectedArray h' ce := by
    funext v
    rw [throwExpectedArray,throwExpectedArray,hname]
  rw [serialized,serialized,isArrayOrStdClass_eq hh,hthrow]

variable (L : Libbson) (U : Userland) (append : CString → HeapValue T O → Encode T O Doc)

theorem appendTable_eq (skip : Bool) : appendTable h L append skip = appendTable h' L append skip := by
  funext v
  cases v with
  | plain p => cases p <;> rfl
  | array t => exact appendSlots_eq hh append false skip t
  | object o =>
    rw [appendTable,appendTable,hh.objects]
    cases h'.objects o with
    | bson | cursorId => rfl
    | user ce table returned => exact appendSlots_eq hh append false skip table

theorem internal_eq (flags : Flags) : internal h L append flags = internal h' L append flags := by
  funext v
  cases v with
  | plain p => cases p <;> rfl
  | array t => rw [internal,internal,appendSlots_eq hh]
  | object o =>
    rw [internal,internal,hh.objects]
    cases h'.objects o with
    | bson | cursorId => rfl
    | user ce table returned =>
      simp only [serialized_eq hh,appendTable_eq hh,appendSlots_eq hh]

theorem appendObject_eq : appendObject h L append = appendObject h' L append := by
  funext key ce table returned
  simp only [appendObject,serialized_eq hh,isBsonArray_eq hh,internal_eq hh,appendSlots_eq hh]

theorem appendValue_eq [DecidableEq T] (protects : Bool) :
    appendValue h L U append protects = appendValue h' L U append protects := by
  funext key v
  cases v with
  | plain p => rfl
  | array t => simp only [appendValue,keysAreIndices_eq hh,appendSlots_eq hh]
  | object o =>
    rw [appendValue,appendValue,hh.objects]
    cases h'.objects o with
    | bson | cursorId => rfl
    | user ce table returned => simp only [appendObject_eq hh]

/-- The encoder descends alike, by induction on the depth. -/
theorem append_eq [DecidableEq T] (protects : Bool) (depth : ℕ) :
    Graph.append h L U protects depth = Graph.append h' L U protects depth := by
  induction depth with
  | zero => rfl
  | succ n ih =>
    funext key v
    rw [Graph.append,Graph.append,ih,appendValue_eq hh]

end Heaps

/-- An account whose private property holds its secret, and whose public one holds itself. -/
def account (secret : HeapValue Unit Unit) : PhpHeap Unit Unit Unit where
  elements _ := [(.str (0::ascii "Account" ++ 0::ascii "secret"),.value secret),
    (.str (ascii "own"),.reference ())]
  objects _ := .user ⟨ascii "Account",.none,false,false,true⟩ () (.threw [])
  references _ := .object ()

end Graph
end Phongo
