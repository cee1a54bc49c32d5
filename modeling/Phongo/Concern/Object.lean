import Mathlib.Tactic.Common
import Phongo.Php.Serialize
import Phongo.Exception

/-! What ReadConcern, WriteConcern and ReadPreference objects share: each wraps a handle of
libmongoc, is initialised from a property table and exported to one. -/
namespace Phongo
open OrderedTable

/-- What `bson_ascii_strtoll` returns, whether it set `errno`, and how far it read. -/
structure Strtoll where
  value : Int64
  errno : Bool
  endptr : Option ℕ

/-- `bson_ascii_strtoll` in base 10. -/
abbrev AsciiStrtoll := CString → Strtoll

/-- What a number is written as is read to its end, as that number. -/
def AsciiStrtoll.Exact (strtoll : AsciiStrtoll) : Prop :=
  ∀ n, strtoll (CString.ofBytes (longToStr n)) = ⟨n,false,some (longToStr n).length⟩

/-- `php_phongo_parse_int64` -/
def parseInt64 (strtoll : AsciiStrtoll) (data : Bytes) : Option Int64 :=
  let r := strtoll (CString.ofBytes data)
  if r.errno ∨ r.endptr.any (· ≠ data.length) then none else some r.value

theorem parseInt64_longToStr {strtoll : AsciiStrtoll} (h : strtoll.Exact) (n : Int64) :
    parseInt64 strtoll (longToStr n) = some n := by
  simp [parseInt64,h n]

/-- What an initialisation leaves: its return value, the handle of the object or NULL, and the
pending exceptions. -/
structure Initialisation (Handle : Type) where
  ok : Bool
  handle : Option Handle
  exceptions : Pending

abbrev Props := List (Key × Zval)

/-- `zend_hash_str_find` -/
def Props.findStr (props : Props) (name : String) : Option Zval := find? props (.str (ascii name))

def property (name : String) (z : Zval) : Key × Zval := (.str (ascii name),z)

/-- An object of such a class: its handle, and the table that its `get_properties` handler has
made, if it was called. -/
structure ConcernObject (Handle : Type) where
  handle : Option Handle
  properties : Option Props

/-- The table of `PHONGO_GET_PROPERTY_HASH_INIT_PROPS` with properties written into it, and the
object after it: the table that an object has is used again, with all that it held. -/
def ConcernObject.fill {Handle : Type} (o : ConcernObject Handle) (isTemp : Bool)
    (exported : Props) : Props × ConcernObject Handle :=
  if isTemp then (updateAll [] exported,o)
  else
    let props := updateAll (o.properties.getD []) exported
    (props,{ o with properties := some props })

theorem ConcernObject.handle_fill {Handle : Type} (o : ConcernObject Handle) (isTemp : Bool)
    (exported : Props) : (o.fill isTemp exported).2.handle = o.handle := by
  unfold ConcernObject.fill
  split <;> rfl

theorem keys_optional_sublist (o : Option Zval) (name : String) :
    (keys (o.map (property name)).toList).Sublist [.str (ascii name)] := by
  cases o with
  | none => exact List.nil_sublist _
  | some z => exact List.Sublist.refl _

section Methods
variable {Handle : Type} (F : SerialFormat) (className : Bytes)

/-- The common body of the `unserialize` methods on a new object; nothing where a NULL table is
searched. -/
def unserializeMethod (initFromHash : Props → Pending → Option (Initialisation Handle))
    (serialized : Bytes) (eg : Pending) : Option (Initialisation Handle) :=
  if serialized.isEmpty then some ⟨false,none,eg⟩
  else
    match unserialize F serialized with
    | none => some ⟨false,none,throwException .unexpectedValue "%s unserialization failed"
        [.bytes className] eg⟩
    | some z => z.hashOf.bind fun props => initFromHash props eg

/-- The end of the `serialize` methods. -/
def serializeProps (props : Props) : Bytes := varSerialize F (.array none props)

theorem serializeProps_ne_nil (props : Props) : (serializeProps F props).isEmpty = false := by
  simp [serializeProps,varSerialize,ascii]

/-- What comes back of a table is what the object is initialised from. -/
theorem unserializeMethod_comesBack {props : Props} (h : Regular F (.array none props))
    (initFromHash : Props → Pending → Option (Initialisation Handle)) (eg : Pending) :
    unserializeMethod F className initFromHash (serializeProps F props) eg =
      (comesBackAll F props).elim
        (some ⟨false,none,throwException .unexpectedValue "%s unserialization failed"
          [.bytes className] eg⟩)
        fun props => initFromHash props eg := by
  unfold unserializeMethod
  rw [serializeProps_ne_nil,serializeProps,unserialize_eq h,comesBack]
  cases comesBackAll F props <;> rfl

/-- A table that comes back is what the object is initialised from. -/
theorem unserializeMethod_serializeProps {props : Props} (h : Restores F (.array none props))
    (initFromHash : Props → Pending → Option (Initialisation Handle)) (eg : Pending) :
    unserializeMethod F className initFromHash (serializeProps F props) eg =
      initFromHash props eg := by
  unfold unserializeMethod
  rw [serializeProps_ne_nil]
  simp only [serializeProps,unserialize_varSerialize h]
  rfl

end Methods

/-- Floats as the number of their bits, and only `stdClass` objects. -/
def SerialFormat.scalars : SerialFormat where
  doubleText bits := digits bits.toNat
  readDouble s := some (UInt64.ofNat (decimal s).toNat)
  payload _ := []
  readPayload _ _ := none
  readObject _ _ := none

end Phongo
