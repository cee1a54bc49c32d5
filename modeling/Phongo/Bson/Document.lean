import Mathlib.Tactic.Common
import Phongo.Php.Bytes

/-! BSON documents as libbson's iterator delivers them, and what the driver takes from libbson.
An element of unknown type and the point where the bytes stop making sense are elements too,
so that a document stands for any input buffer. -/
namespace Phongo

abbrev Oid := Vector UInt8 12

inductive BsonValue
  | double (bits : UInt64)
  | utf8 (s : Bytes)
  | document (d : List (CString × BsonValue))
  | array (d : List (CString × BsonValue))
  | binary (subtype : UInt8) (data : Bytes)
  | undefined
  | oid (o : Oid)
  | bool (b : Bool)
  | dateTime (ms : Int64)
  | null
  | regex (pattern options : CString)
  | dbPointer (ns : Bytes) (o : Oid)
  | code (c : Bytes)
  | symbol (s : Bytes)
  | codeWithScope (c : Bytes) (scope : List (CString × BsonValue))
  | int32 (n : Int32)
  | timestamp (t i : UInt32)
  | int64 (n : Int64)
  | decimal128 (high low : UInt64)
  | maxKey
  | minKey
  | unsupported (typeCode : UInt8)
  | corrupt

abbrev Doc := List (CString × BsonValue)

/-- What `bson_reader_new_from_data` makes of a buffer: nothing, a document the iterator
refuses, or a document after which the buffer is exhausted or not. -/
inductive BsonInput
  | unreadable
  | uniterable
  | read (d : Doc) (exhausted : Bool)

/-- The functions of libbson that decide what the driver does. -/
structure Libbson where
  /-- `bson_utf8_validate(utf8, len, allow_null)` -/
  utf8Validate : Bytes → Bool → Bool
  /-- the option string `bson_append_regex` stores -/
  regexOptions : CString → CString
  oidToString : Oid → CString
  oidInitFromString : CString → Oid
  /-- the n-th identifier `bson_oid_init` generates -/
  oidInit : ℕ → Oid
  /-- whether `bson_iter_visit_all` validates DBPointer namespaces -/
  validatesDbPointer : Bool
  /-- the byte offset of the n-th element of a document -/
  offset : Doc → ℕ → ℕ

/-- Whether the iterator can read an element and its text passes `bson_iter_visit_all`. -/
def Libbson.textValid (L : Libbson) : BsonValue → Bool
  | .utf8 s => L.utf8Validate s true
  | .regex p o => L.utf8Validate p.bytes true && L.utf8Validate o.bytes true
  | .dbPointer ns _ => !L.validatesDbPointer || L.utf8Validate ns true
  | .code c => L.utf8Validate c true
  | .symbol s => L.utf8Validate s true
  | .codeWithScope c _ => L.utf8Validate c true
  | .corrupt => false
  | _ => true

/-- The check of `bson_iter_visit_all` on an element's key. -/
def Libbson.keyValid (L : Libbson) (key : CString) : Bool :=
  key.bytes.isEmpty || L.utf8Validate key.bytes false

def Libbson.AcceptsAscii (L : Libbson) : Prop :=
  ∀ s allowNull, (∀ b ∈ s, b ≠ 0 ∧ b < 128) → L.utf8Validate s allowNull = true

def hexDigit (n : UInt8) : UInt8 := if n < 10 then n + 48 else n + 87

def hexValue (c : UInt8) : UInt8 := if c < 58 then c - 48 else c - 87

def hexPair (b : UInt8) : Bytes := [hexDigit (b / 16),hexDigit (b % 16)]

def unhex : Bytes → List UInt8
  | high::low::rest => (hexValue high * 16 + hexValue low)::unhex rest
  | _ => []

/-- What encoding and decoding rely on: ASCII is valid, identifiers read back from their
hexadecimal form, stored regular expression flags are ASCII letters. -/
structure Libbson.Lawful (L : Libbson) : Prop where
  ascii : L.AcceptsAscii
  oid : ∀ o, L.oidInitFromString (L.oidToString o) = o
  regexOptions : ∀ o, L.utf8Validate (L.regexOptions o).bytes true = true

/-- libbson on ASCII text, with hexadecimal identifiers and sorted regular expression flags. -/
def Libbson.ascii : Libbson where
  utf8Validate s allowNull := s.all fun b => b < 128 && (allowNull || b ≠ 0)
  regexOptions o :=
    CString.ofBytes ([105,108,109,115,117,120].filter fun c => o.bytes.contains c)
  oidToString o := CString.ofBytes (o.toList.flatMap hexPair)
  oidInitFromString s := Vector.ofFn fun i => (unhex s.bytes).getD i 0
  oidInit n := Vector.ofFn fun i => UInt8.ofNat (n / Nat.pow 256 (11 - i.val))
  validatesDbPointer := true
  offset _ n := n + 4

theorem Libbson.ascii_acceptsAscii : Libbson.ascii.AcceptsAscii := fun s allowNull h => by
  simp only [Libbson.ascii,List.all_eq_true,Bool.and_eq_true,Bool.or_eq_true,decide_eq_true_eq]
  exact fun b hb => ⟨(h b hb).2,Or.inr (h b hb).1⟩

theorem hexDigit_spec {n : UInt8} (h : n < 16) : hexDigit n ≠ 0 ∧ hexValue (hexDigit n) = n := by
  have hall : ∀ m : Fin 16, hexDigit (UInt8.ofNat m) ≠ 0 ∧
      hexValue (hexDigit (UInt8.ofNat m)) = UInt8.ofNat m := by decide
  have hn : n.toNat < 16 := UInt8.lt_iff_toNat_lt.mp h
  simpa using hall ⟨n.toNat,hn⟩

theorem hexPair_spec (b : UInt8) :
    (0 : UInt8) ∉ hexPair b ∧ ∀ rest, unhex (hexPair b ++ rest) = b::unhex rest := by
  have hb : b.toNat < 256 := b.toNat_lt
  have hlt : b / 16 < 16 ∧ b % 16 < 16 := by
    constructor <;> rw [UInt8.lt_iff_toNat_lt] <;> simp <;> omega
  obtain ⟨hhigh,hlow⟩ := And.intro (hexDigit_spec hlt.1) (hexDigit_spec hlt.2)
  have hsum : b / 16 * 16 + b % 16 = b := by
    rw [← UInt8.toNat_inj]
    simp only [UInt8.toNat_add,UInt8.toNat_mul,UInt8.toNat_div,UInt8.toNat_mod,UInt8.reduceToNat]
    omega
  refine ⟨?_,fun rest => ?_⟩
  · simp [hexPair,hhigh.1.symm,hlow.1.symm]
  · simp [hexPair,unhex,hhigh.2,hlow.2,hsum]

theorem Libbson.ascii_lawful : Libbson.ascii.Lawful where
  ascii := Libbson.ascii_acceptsAscii
  oid o := by
    have hz : (0 : UInt8) ∉ o.toList.flatMap hexPair := fun h => by
      obtain ⟨b,-,hb⟩ := List.mem_flatMap.mp h
      exact (hexPair_spec b).1 hb
    have hu : ∀ l : List UInt8, unhex (l.flatMap hexPair) = l := fun l => by
      induction l with
      | nil => rfl
      | cons b l ih => rw [List.flatMap_cons,(hexPair_spec b).2,ih]
    ext i hi
    simp [Libbson.ascii,CString.bytes_ofBytes_of_notMem _ hz,hu]
  regexOptions o := by
    have hall : ∀ b ∈ [105,108,109,115,117,120].filter fun c => o.bytes.contains c,
        b ≠ (0 : UInt8) ∧ b < 128 := fun b hb => by
      have hm := (List.mem_filter.mp hb).1
      clear hb
      revert b
      decide +kernel
    have hz : (0 : UInt8) ∉ [105,108,109,115,117,120].filter fun c => o.bytes.contains c :=
      fun h => (hall 0 h).1 rfl
    refine Libbson.ascii_acceptsAscii _ true ?_
    simpa only [Libbson.ascii,CString.bytes_ofBytes_of_notMem _ hz] using hall

def BsonValue.IsLeaf : BsonValue → Prop
  | .document _ | .array _ | .codeWithScope _ _ => False
  | _ => True

/-- Induction on values and documents together. -/
theorem BsonValue.induction {P : BsonValue → Prop} {Q : Doc → Prop}
    (leaf : ∀ v, v.IsLeaf → P v) (document : ∀ d, Q d → P (.document d))
    (array : ∀ d, Q d → P (.array d)) (scope : ∀ c s, Q s → P (.codeWithScope c s))
    (nil : Q []) (cons : ∀ k v d, P v → Q d → Q ((k,v)::d)) : (∀ v, P v) ∧ ∀ d, Q d := by
  have hP : ∀ v, P v := fun v => by
    induction v using BsonValue.rec (motive_2:=Q) (motive_3:=fun e => P e.2) with
    | document d ih => exact document d ih
    | array d ih => exact array d ih
    | codeWithScope c s ih => exact scope c s ih
    | nil => exact nil
    | cons e d ihe ih => exact cons e.1 e.2 d ihe ih
    | mk k v ih => exact ih
    | _ => exact leaf _ trivial
  refine ⟨hP,fun d => ?_⟩
  induction d with
  | nil => exact nil
  | cons e d ih => exact cons e.1 e.2 d (hP e.2) ih

end Phongo
