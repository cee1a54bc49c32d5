import Mathlib.Tactic.Common
import Phongo.Bson.Encode
import Phongo.Value.Comparison
import Phongo.Value.Object

/-! `Binary.c`: copies of binary data. Every copy goes through the initialisation, which asks
UUIDs to have 16 bytes; the decoder does not ask. -/
namespace Phongo
open OrderedTable

/-- `BSON_SUBTYPE_UUID_DEPRECATED` and `BSON_SUBTYPE_UUID` -/
def subtypeUuidDeprecated : Int64 := 3
def subtypeUuid : Int64 := 4

/-- `PHONGO_BINARY_UUID_SIZE` -/
def binaryUuidSize : ℕ := 16

/-- A `uint8_t` as a `zend_long`. -/
def longOfByte (b : UInt8) : Int64 := Int64.ofNat b.toNat

namespace Binary

def className : Bytes := ascii "MongoDB\\BSON\\Binary"

/-- `php_phongo_binary_init` -/
def init (intern : Option Binary) (data : Bytes) (type : Int64) (eg : Pending) :
    Initialisation Binary :=
  if type < 0 ∨ type > 255 then
    ⟨false,intern,throwException .invalidArgument
      "Expected type to be an unsigned 8-bit integer, %ld given" [.num type.toInt] eg⟩
  else if (type = subtypeUuidDeprecated ∨ type = subtypeUuid) ∧ data.length ≠ binaryUuidSize then
    ⟨false,intern,throwException .invalidArgument
      "Expected UUID length to be %d bytes, %d given" [.num binaryUuidSize,.num data.length] eg⟩
  else ⟨true,some ⟨data,type.toUInt64.toUInt8⟩,eg⟩

/-- `php_phongo_binary_init_from_hash` -/
def initFromHash (intern : Option Binary) (props : Props) (eg : Pending) : Initialisation Binary :=
  match props.findStr "data", props.findStr "type" with
  | some (.string data), some (.long type) => init intern data type eg
  | _, _ => ⟨false,intern,throwException .invalidArgument
      "%s initialization requires \"data\" string and \"type\" integer fields"
      [.bytes className] eg⟩

/-- `php_phongo_binary_get_properties_hash`, and the array that `serialize` writes -/
def getProperties (b : Binary) : Props :=
  [property "data" (.string b.data),property "type" (.long (longOfByte b.type))]

/-- `php_phongo_binary_clone_object` -/
def cloneObject (b : Binary) (eg : Pending) : Initialisation Binary :=
  init none b.data (longOfByte b.type) eg

def valueClass : ValueClass Binary where
  name := className
  initFromHash := initFromHash
  getProperties b := pure b.getProperties
  magicSerialized b := pure b.getProperties
  serialized b := pure b.getProperties
  cloneObject b eg := some (b.cloneObject eg)
  hasSetState := true

def toObject (b : Binary) : BsonObject := .binary b.data b.type

/-- The objects a program can hold: constructed or restored, decoded, or copied. -/
inductive Reachable (L : Libbson) : Binary → Prop
  | init {intern data type eg b} (hok : (init intern data type eg).ok = true)
      (h : (init intern data type eg).handle = some b) : Reachable L b
  | decode {subtype data b} (h : leafValue L (.binary subtype data) = .bson (toObject b)) :
      Reachable L b

/-- The same data, length, type, order and BSON. -/
structure Same (L : Libbson) (b b' : Binary) : Prop where
  data : b'.data = b.data
  length : b'.data.length = b.data.length
  type : b'.type = b.type
  compareObjects : b'.compareObjects b = .eq
  bson : bsonObjectValue L b'.toObject = bsonObjectValue L b.toObject

/-- Of one of the UUID subtypes, but not of the length of a UUID. -/
def MislengthedUuid (b : Binary) : Prop :=
  (longOfByte b.type = subtypeUuidDeprecated ∨ longOfByte b.type = subtypeUuid) ∧
    b.data.length ≠ binaryUuidSize

instance (b : Binary) : Decidable b.MislengthedUuid := inferInstanceAs (Decidable (_ ∧ _))

section
variable {L : Libbson} {F : SerialFormat} {tables : BsonObject → Option Props} {b : Binary}

theorem same_refl : Same L b b where
  data := rfl
  length := rfl
  type := rfl
  compareObjects := (zeroIffEqual_binary b b).mpr rfl
  bson := rfl

theorem toInt_longOfByte (type : UInt8) : (longOfByte type).toInt = type.toNat := by
  have hlt := type.toNat_lt
  exact Int64.toInt_ofNat_of_lt (by omega)

theorem longOfByte_inRange (type : UInt8) : ¬ (longOfByte type < 0 ∨ longOfByte type > 255) := by
  have hlt := type.toNat_lt
  have hlong := toInt_longOfByte type
  rintro (hneg | hbig)
  · rw [Int64.lt_iff_toInt_lt,hlong,Int64.toInt_zero] at hneg
    omega
  · rw [gt_iff_lt,Int64.lt_iff_toInt_lt,hlong] at hbig
    simp at hbig
    omega

theorem toUInt8_longOfByte (type : UInt8) : (longOfByte type).toUInt64.toUInt8 = type := by
  simp [longOfByte]

theorem longOfByte_toUInt8 {type : Int64} (h : ¬ (type < 0 ∨ type > 255)) :
    longOfByte type.toUInt64.toUInt8 = type := by
  have hlo : 0 ≤ type.toInt := by
    have hn := fun hn => h (Or.inl hn)
    rw [Int64.lt_iff_toInt_lt,Int64.toInt_zero] at hn
    exact Int.not_lt.mp hn
  have hhi : type.toInt ≤ 255 := by
    have hn := fun hn => h (Or.inr hn)
    rw [gt_iff_lt,Int64.lt_iff_toInt_lt] at hn
    simpa using hn
  obtain ⟨m,hm⟩ := Int.eq_ofNat_of_zero_le hlo
  have htype : type = Int64.ofNat m := by
    rw [← Int64.ofInt_toInt type,hm]
    rfl
  have hbyte : (Int64.ofNat m).toUInt64.toUInt8.toNat = m := by
    simp
    omega
  rw [htype,longOfByte,hbyte]

/-- What was in an object is initialised again unless it is a UUID of another length. -/
theorem init_longOfByte (intern : Option Binary) (eg : Pending) :
    init intern b.data (longOfByte b.type) eg =
      if b.MislengthedUuid then ⟨false,intern,throwException .invalidArgument
        "Expected UUID length to be %d bytes, %d given"
        [.num binaryUuidSize,.num b.data.length] eg⟩
      else ⟨true,some b,eg⟩ := by
  unfold init
  rw [if_neg (longOfByte_inRange b.type),toUInt8_longOfByte]
  rfl

theorem restores_getProperties : Restores F (.array none b.getProperties) :=
  restores_pair F trivial trivial (by decide) (by decide) (by decide)

theorem copy_eq (path : CopyPath) : valueClass.copy F tables b path =
    some (init none b.data (longOfByte b.type) []) := by
  cases path with
  | clone => rfl
  | serialize =>
    rw [ValueClass.copy_serialize rfl restores_getProperties]
    rfl
  | magicSerialize => rfl
  | setState => rfl

theorem not_mislengthedUuid_of_init {intern : Option Binary} {data : Bytes} {type : Int64}
    {eg : Pending} (hok : (init intern data type eg).ok = true)
    (h : (init intern data type eg).handle = some b) : ¬ b.MislengthedUuid := by
  unfold init at hok h
  by_cases hrange : type < 0 ∨ type > 255
  · rw [if_pos hrange] at hok
    cases hok
  · rw [if_neg hrange] at hok h
    by_cases hlength : (type = subtypeUuidDeprecated ∨ type = subtypeUuid) ∧
        data.length ≠ binaryUuidSize
    · rw [if_pos hlength] at hok
      cases hok
    · rw [if_neg hlength] at h
      cases h
      unfold MislengthedUuid
      rw [longOfByte_toUInt8 hrange]
      exact hlength

end

/-- Each way to a copy works for exactly the objects that are no UUIDs of another length, which
only decoding makes. -/
theorem binary_copied_iff (L : Libbson) (F : SerialFormat) (tables : BsonObject → Option Props)
    (b : Binary) (path : CopyPath) :
    ValueClass.Copied (Same L b) (valueClass.copy F tables b path) ↔ ¬ b.MislengthedUuid := by
  rw [copy_eq,init_longOfByte]
  by_cases h : b.MislengthedUuid
  · rw [if_pos h]
    exact iff_of_false (ValueClass.not_copied_of_exceptions (List.cons_ne_nil _ _))
      (not_not_intro h)
  · rw [if_neg h,ValueClass.copied_some]
    exact iff_of_true same_refl h

/-- An empty UUID can be decoded, but not copied. -/
theorem not_binary_copies : ¬ ∀ b, Reachable .ascii b → ∀ path, ValueClass.Copied (Same .ascii b)
    (valueClass.copy .scalars (fun _ => none) b path) := by
  intro h
  have hdecoded : leafValue .ascii (.binary 4 []) = .bson (toObject ⟨[],4⟩) := rfl
  have hcopied := h ⟨[],4⟩ (.decode hdecoded) .clone
  rw [copy_eq] at hcopied
  exact ValueClass.not_copied_of_exceptions (by decide) hcopied

end Binary
end Phongo
