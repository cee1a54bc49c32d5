import Mathlib.Tactic.Common
import Phongo.Typemap.Parse

/-! What a type name in a typemap stands for. -/
namespace Phongo
open OrderedTable

/-- A type and its class that a decoder can build: a class has an entry, which can be
instantiated and implements Unserializable. -/
def Instantiable (type : TypemapType × Option ClassEntry) : Prop :=
  type.1 = .class → ∃ ce, type.2 = some ce ∧ ce.instantiatable = true ∧ ce.isUnserializable = true

namespace Parsing
variable (U : Userland) (S : StringConversion)

def isNative (classname : Bytes) : Bool :=
  (CString.ofBytes classname).eqCase "array" || (CString.ofBytes classname).eqCase "stdclass" ||
    (CString.ofBytes classname).eqCase "object"

/-- A type name that is empty, that of a native type, or that of a class the decoder can fill. -/
def ValidName (classname : Bytes) : Prop :=
  classname = [] ∨ isNative classname = true ∨
    ∃ ce, U.fetchClass classname = some ce ∧ ce.instantiatable = true ∧ ce.isUnserializable = true

/-- What a type name means; an empty one says that the type is not set. -/
def typeNamed (classname : Bytes) : TypemapType × Option ClassEntry :=
  if classname = [] then (.none,none)
  else if (CString.ofBytes classname).eqCase "array" then (.nativeArray,none)
  else if (CString.ofBytes classname).eqCase "stdclass" ||
      (CString.ofBytes classname).eqCase "object" then (.nativeObject,none)
  else (.class,U.fetchClass classname)

/-- The type name a value is converted to; a missing value has an empty one. -/
def nameOf : Option Zval → Bytes
  | none => []
  | some z => (zvalToString S z).1

/-- What the value at `name` means. -/
def typeAt (options : List (Key × Zval)) (name : CString) : TypemapType × Option ClassEntry :=
  typeNamed U (nameOf S (find? options (symtable name.bytes)))

variable {U S}

theorem typeNamed_nil : typeNamed U [] = (.none,none) := rfl

theorem instantiable_typeNamed {classname : Bytes} (h : ValidName U classname) :
    Instantiable (typeNamed U classname) := by
  intro hclass
  unfold typeNamed at hclass ⊢
  split at hclass
  · cases hclass
  split at hclass
  · cases hclass
  split at hclass
  · cases hclass
  · rename_i hne harray hobject
    have hnative : isNative classname = false := by
      rw [Bool.not_eq_true] at harray hobject
      rw [isNative,Bool.or_assoc,harray,hobject,Bool.or_self]
    rcases h with h | h | h
    · exact absurd h hne
    · rw [hnative] at h
      cases h
    · simpa [hne,harray,hobject] using h

theorem fetchClass_some {classname : Bytes} {ce : ClassEntry} {eg eg' : Pending}
    (h : fetchClass U classname eg = (some ce,eg')) :
    U.fetchClass classname = some ce ∧ ce.instantiatable = true ∧ ce.isUnserializable = true := by
  unfold fetchClass at h
  cases hfound : U.lookupClass classname with
  | error thrown =>
    rw [hfound] at h
    cases h
  | ok found =>
    simp only [hfound] at h
    split at h
    · cases h
    split at h
    · cases h
    · rename_i hinst hunser
      cases h
      exact ⟨Userland.fetchClass_eq_some.mpr hfound,not_not.mp hinst,not_not.mp hunser⟩

theorem fetchClass_of_found {classname : Bytes} {ce : ClassEntry}
    (h : U.fetchClass classname = some ce) (hinst : ce.instantiatable = true)
    (hunser : ce.isUnserializable = true) (eg : Pending) :
    fetchClass U classname eg = (some ce,eg) := by
  simp only [fetchClass,Userland.fetchClass_eq_some.mp h,hinst,hunser]
  rfl

theorem fetchString_eq (options : List (Key × Zval)) (name : CString) (eg : Pending) :
    ∃ eg', fetchString S options name eg =
      (some (nameOf S (find? options (symtable name.bytes))),eg') := by
  unfold fetchString
  cases find? options (symtable name.bytes) with
  | none => exact ⟨eg,rfl⟩
  | some z => exact ⟨_,rfl⟩

theorem parseType_some {options : List (Key × Zval)} {name : CString}
    {before type : TypemapType × Option ClassEntry} {eg eg' : Pending}
    (h : parseType U S options name before eg = (some type,eg')) :
    ValidName U (nameOf S (find? options (symtable name.bytes))) ∧
      type = if nameOf S (find? options (symtable name.bytes)) = [] then before
        else typeAt U S options name := by
  obtain ⟨classname,eg₁,hfetch,h⟩ := Attempt.bind_eq_some.mp h
  obtain ⟨eg₂,hname⟩ := fetchString_eq (S:=S) options name eg
  rw [hname] at hfetch
  cases hfetch
  rw [typeAt]
  generalize nameOf S _ = classname at h ⊢
  split at h
  · rename_i hnil
    cases h
    exact ⟨.inl hnil,by rw [if_pos hnil]⟩
  rename_i hnil
  rw [if_neg hnil,typeNamed,if_neg hnil]
  split at h
  · rename_i harray
    cases h
    exact ⟨.inr (.inl (by simp [isNative,harray])),by rw [if_pos harray]⟩
  rename_i harray
  rw [if_neg harray]
  split at h
  · rename_i hobject
    cases h
    refine ⟨.inr (.inl ?_),by rw [if_pos hobject]⟩
    rw [isNative,Bool.or_assoc,hobject,Bool.or_true]
  rename_i hobject
  rw [if_neg hobject]
  obtain ⟨ce,eg₃,hce,h⟩ := Attempt.bind_eq_some.mp h
  obtain ⟨hfound,hsound⟩ := fetchClass_some hce
  cases h
  exact ⟨.inr (.inr ⟨ce,hfound,hsound⟩),by rw [hfound]⟩

theorem parseType_of_valid {options : List (Key × Zval)} (name : CString)
    (h : ValidName U (nameOf S (find? options (symtable name.bytes))))
    (before : TypemapType × Option ClassEntry) (eg : Pending) :
    ∃ type eg', parseType U S options name before eg = (some type,eg') := by
  obtain ⟨eg',hname⟩ := fetchString_eq (S:=S) options name eg
  unfold parseType
  rw [Attempt.bind_of_some hname]
  generalize nameOf S _ = classname at h ⊢
  split
  · exact ⟨_,_,rfl⟩
  split
  · exact ⟨_,_,rfl⟩
  split
  · exact ⟨_,_,rfl⟩
  · rename_i hne harray hobject
    rcases h with h | h | ⟨ce,hfound,hinst,hunser⟩
    · exact absurd h hne
    · simp [isNative,harray] at h
      simp [h] at hobject
    · rw [Attempt.bind_of_some (fetchClass_of_found hfound hinst hunser eg')]
      exact ⟨_,_,rfl⟩

end Parsing
end Phongo
