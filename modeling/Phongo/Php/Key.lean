import Mathlib.Tactic.Common
import Mathlib.Tactic.IntervalCases
import Phongo.Php.Bytes

/-! Keys of PHP hash tables and the numeric-string rule of the symtable functions. -/
namespace Phongo

/-- A hash table key is a machine integer or a string. -/
inductive Key
  | int (n : Int64)
  | str (s : Bytes)
  deriving DecidableEq

def digits (m : ℕ) : Bytes := (Nat.toDigits 10 m).map fun c => UInt8.ofNat c.toNat

/-- `zend_long_to_str`. -/
def longToStr (n : Int64) : Bytes :=
  match n.toInt with
  | .ofNat m => digits m
  | .negSucc m => 45::digits (m+1)

def decimal (s : Bytes) : ℤ :=
  match s with
  | 45::cs => -(Nat.ofDigitChars 10 (cs.map fun b => Char.ofNat b.toNat) 0 : ℕ)
  | cs => (Nat.ofDigitChars 10 (cs.map fun b => Char.ofNat b.toNat) 0 : ℕ)

/-- `ZEND_HANDLE_NUMERIC_STR`: a key spelled exactly as `zend_long_to_str` spells an
integer is stored under that integer, any other under the string. -/
def symtable (s : Bytes) : Key :=
  let n := Int64.ofInt (decimal s)
  if longToStr n = s then .int n else .str s

/-- The string under which a key is written to BSON or to a property table. -/
def Key.toStr : Key → Bytes
  | .int n => longToStr n
  | .str s => s

@[simp] theorem toStr_symtable (s : Bytes) : (symtable s).toStr = s := by
  unfold symtable
  dsimp only
  split
  · rename_i h; exact h
  · rfl

theorem symtable_injective : Function.Injective symtable := fun s t h => by
  rw [← toStr_symtable s,h,toStr_symtable]

theorem isDigit_toNat {c : Char} (h : c.isDigit = true) : 48 ≤ c.toNat ∧ c.toNat ≤ 57 := by
  simp only [Char.isDigit,Bool.and_eq_true,decide_eq_true_eq] at h
  exact ⟨h.1,h.2⟩

theorem toNat_of_mem_digits {m : ℕ} {b : UInt8} (h : b ∈ digits m) :
    48 ≤ b.toNat ∧ b.toNat ≤ 57 := by
  obtain ⟨c,hc,rfl⟩ := List.mem_map.mp h
  have hd := isDigit_toNat (Nat.isDigit_of_mem_toDigits (by decide) (by decide) hc)
  rw [UInt8.toNat_ofNat_of_lt' (by show c.toNat < 256; omega)]
  exact hd

theorem ofDigitChars_digits (m : ℕ) :
    Nat.ofDigitChars 10 ((digits m).map fun b => Char.ofNat b.toNat) 0 = m := by
  have hid : (digits m).map (fun b => Char.ofNat b.toNat) = Nat.toDigits 10 m := by
    rw [digits,List.map_map]
    conv_rhs => rw [← List.map_id (Nat.toDigits 10 m)]
    refine List.map_congr_left fun c hc => ?_
    have hd := isDigit_toNat (Nat.isDigit_of_mem_toDigits (by decide) (by decide) hc)
    simp only [Function.comp_apply,id_eq]
    rw [UInt8.toNat_ofNat_of_lt' (by show c.toNat < 256; omega),Char.ofNat_toNat]
  rw [hid,Nat.ofDigitChars_ten_toDigits]

theorem decimal_digits (m : ℕ) : decimal (digits m) = m := by
  unfold decimal
  split
  · rename_i cs h
    have hm := toNat_of_mem_digits (m:=m) (b:=45) (by simp [h])
    simp at hm
  · rw [ofDigitChars_digits]

theorem decimal_longToStr (n : Int64) : decimal (longToStr n) = n.toInt := by
  unfold longToStr
  split
  · rename_i m h; rw [decimal_digits,h]; rfl
  · rename_i m h; rw [decimal,ofDigitChars_digits,h]; rfl

@[simp] theorem symtable_longToStr (n : Int64) : symtable (longToStr n) = .int n := by
  simp [symtable,decimal_longToStr]

theorem longToStr_injective : Function.Injective longToStr := fun m n h => by
  have hs := congrArg symtable h
  simpa using hs

/-- The key form PHP arrays keep: no string key spells an integer. -/
def Key.Normal : Key → Prop
  | .int _ => True
  | .str s => symtable s = .str s

instance : DecidablePred Key.Normal := fun k => by
  cases k <;> unfold Key.Normal <;> infer_instance

theorem normal_symtable (s : Bytes) : (symtable s).Normal := by
  unfold symtable
  dsimp only
  split
  · trivial
  · rename_i h; simp [Key.Normal,symtable,h]

theorem symtable_toStr {k : Key} (h : k.Normal) : symtable k.toStr = k := by
  cases k with
  | int n => exact symtable_longToStr n
  | str s => exact h

theorem longToStr_ascii (n : Int64) : ∀ b ∈ longToStr n, b ≠ 0 ∧ b < 128 := by
  have hd : ∀ m, ∀ b ∈ digits m, b ≠ 0 ∧ b < 128 := fun m b h => by
    have hm := toNat_of_mem_digits h
    refine ⟨fun h0 => by simp [h0] at hm,UInt8.lt_iff_toNat_lt.mpr ?_⟩
    show b.toNat < 128
    omega
  unfold longToStr
  split
  · exact hd _
  · intro b hb
    rcases List.mem_cons.mp hb with rfl | hb
    · decide
    · exact hd _ b hb

theorem zero_notMem_longToStr (n : Int64) : (0 : UInt8) ∉ longToStr n :=
  fun h => (longToStr_ascii n 0 h).1 rfl

example : symtable (ascii "-5") = .int (-5) ∧ symtable (ascii "05") = .str (ascii "05") := by
  decide

end Phongo
