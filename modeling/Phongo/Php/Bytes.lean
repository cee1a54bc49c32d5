import Mathlib.Data.List.TakeWhile
import Mathlib.Tactic.Common

/-! PHP strings and C strings.
A PHP string carries its length and may hold any byte; a `char*` ends at its first NUL. -/
namespace Phongo

abbrev Bytes := List UInt8

def ascii (s : String) : Bytes := s.toList.map fun c => UInt8.ofNat c.toNat

/-- What a function that takes a `char*` sees of a buffer. -/
def cstr (s : Bytes) : Bytes := s.takeWhile (· ≠ 0)

theorem zero_notMem_cstr (s : Bytes) : (0 : UInt8) ∉ cstr s := by
  intro h
  have hz := List.mem_takeWhile_imp h
  simp at hz

theorem cstr_of_notMem (s : Bytes) (h : (0 : UInt8) ∉ s) : cstr s = s := by
  refine List.takeWhile_eq_self_iff.mpr ?_
  intro b hb
  have hne : b ≠ 0 := fun he => h (he ▸ hb)
  simpa using hne

theorem cstr_eq_self_iff (s : Bytes) : cstr s = s ↔ (0 : UInt8) ∉ s :=
  ⟨fun h => h ▸ zero_notMem_cstr s,cstr_of_notMem s⟩

/-- A NUL-terminated string: BSON keys, regular expressions, path elements. -/
def CString := {s : Bytes // (0 : UInt8) ∉ s}
deriving DecidableEq

namespace CString

def bytes (s : CString) : Bytes := s.1

def ofBytes (s : Bytes) : CString := ⟨cstr s,zero_notMem_cstr s⟩

def lit (s : String) : CString := ofBytes (ascii s)

@[ext] theorem ext {s t : CString} (h : s.bytes = t.bytes) : s = t := Subtype.ext h

theorem bytes_ofBytes (s : Bytes) : (ofBytes s).bytes = cstr s := rfl

theorem bytes_ofBytes_of_notMem (s : Bytes) (h : (0 : UInt8) ∉ s) : (ofBytes s).bytes = s :=
  cstr_of_notMem s h

@[simp] theorem ofBytes_bytes (s : CString) : ofBytes s.bytes = s :=
  ext (cstr_of_notMem s.1 s.2)

theorem zero_notMem (s : CString) : (0 : UInt8) ∉ s.bytes := s.2

instance : Inhabited CString := ⟨ofBytes []⟩

end CString

def lowerByte (b : UInt8) : UInt8 := if 65 ≤ b ∧ b ≤ 90 then b + 32 else b

/-- `strcasecmp` finds no difference. -/
def CString.eqCase (s : CString) (t : String) : Bool :=
  s.bytes.map lowerByte = (ascii t).map lowerByte

end Phongo
