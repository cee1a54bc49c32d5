import Mathlib.Tactic.Common
import Phongo.Concern.WriteConcern
import Phongo.Value.Comparison
import Phongo.Value.Object

/-! `Int64.c`, `UTCDateTime.c`, `CursorId.c` and `Timestamp.c`: numbers are exported as decimal
strings, and read from them. -/
namespace Phongo
open OrderedTable

namespace Numeric

section Classes
variable (strtoll : AsciiStrtoll)

/-- The `init_from_string` functions of one number, with the message of each class. -/
def initFromString (format : String) (className : Bytes) (intern : Option Int64) (s : Bytes)
    (eg : Pending) : Initialisation Int64 :=
  match parseInt64 strtoll s with
  | none => ⟨false,intern,throwException .invalidArgument format
      [.bytes (cstr s),.bytes className] eg⟩
  | some n => ⟨true,some n,eg⟩

/-- `ZVAL_INT64_STRING` -/
def int64String (n : Int64) : Zval := .string (longToStr n)

namespace Int64

def className : Bytes := ascii "MongoDB\\BSON\\Int64"

/-- `php_phongo_int64_init_from_hash` -/
def initFromHash (intern : Option Int64) (props : Props) (eg : Pending) : Initialisation Int64 :=
  match props.findStr "integer" with
  | some (.string s) => initFromString strtoll
      "Error parsing \"%s\" as 64-bit integer for %s initialization" className intern s eg
  | _ => ⟨false,intern,throwException .invalidArgument
      "%s initialization requires \"integer\" string field" [.bytes className] eg⟩

/-- `php_phongo_int64_get_properties_hash`, and the array that `serialize` writes -/
def getProperties (n : Int64) : Props := [property "integer" (int64String n)]

/-- `__set_state` is intentionally missing. -/
def valueClass : ValueClass Int64 where
  name := className
  initFromHash := initFromHash strtoll
  getProperties n := pure (getProperties n)
  magicSerialized n := pure (getProperties n)
  serialized n := pure (getProperties n)
  cloneObject n eg := some ⟨true,some n,eg⟩
  hasSetState := false

end Int64

namespace UTCDateTime

def className : Bytes := ascii "MongoDB\\BSON\\UTCDateTime"

/-- `php_phongo_utcdatetime_init_from_hash` -/
def initFromHash (intern : Option Int64) (props : Props) (eg : Pending) : Initialisation Int64 :=
  match props.findStr "milliseconds" with
  | some (.long milliseconds) => ⟨true,some milliseconds,eg⟩
  | some (.string s) => initFromString strtoll
      "Error parsing \"%s\" as 64-bit integer for %s initialization" className intern s eg
  | _ => ⟨false,intern,throwException .invalidArgument
      "%s initialization requires \"milliseconds\" integer or numeric string field"
      [.bytes className] eg⟩

/-- `php_phongo_utcdatetime_get_properties_hash`, and the array that `serialize` writes -/
def getProperties (milliseconds : Int64) : Props :=
  [property "milliseconds" (int64String milliseconds)]

def valueClass : ValueClass Int64 where
  name := className
  initFromHash := initFromHash strtoll
  getProperties milliseconds := pure (getProperties milliseconds)
  magicSerialized milliseconds := pure (getProperties milliseconds)
  serialized milliseconds := pure (getProperties milliseconds)
  cloneObject milliseconds eg := some ⟨true,some milliseconds,eg⟩
  hasSetState := true

end UTCDateTime

namespace CursorId

def className : Bytes := ascii "MongoDB\\Driver\\CursorId"

/-- `php_phongo_cursorid_init_from_hash` -/
def initFromHash (intern : Option Int64) (props : Props) (eg : Pending) : Initialisation Int64 :=
  match props.findStr "id" with
  | some (.string s) => initFromString strtoll
      "Error parsing \"%s\" as 64-bit id for %s initialization" className intern s eg
  | _ => ⟨false,intern,throwException .invalidArgument
      "%s initialization requires \"id\" string field" [.bytes className] eg⟩

/-- `php_phongo_cursorid_get_properties_hash` where a `zend_long` has 64 bits -/
def getProperties (isSerialize : Bool) (id : Int64) : Props :=
  if isSerialize then [property "id" (int64String id)] else [property "id" (.long id)]

/-- The array that `serialize` writes. -/
def serialized (id : Int64) : Props := [property "id" (int64String id)]

def valueClass : ValueClass Int64 where
  name := className
  initFromHash := initFromHash strtoll
  getProperties id := pure (getProperties false id)
  magicSerialized id := pure (getProperties true id)
  serialized id := pure (serialized id)
  cloneObject _ _ := none
  hasSetState := true

end CursorId

namespace Timestamp

def className : Bytes := ascii "MongoDB\\BSON\\Timestamp"

/-- `php_phongo_timestamp_init` -/
def init (intern : Option Timestamp) (increment timestamp : Int64) (eg : Pending) :
    Initialisation Timestamp :=
  if increment < 0 ∨ increment > 4294967295 then
    ⟨false,intern,throwException .invalidArgument
      "Expected increment to be an unsigned 32-bit integer, %ld given" [.num increment.toInt] eg⟩
  else if timestamp < 0 ∨ timestamp > 4294967295 then
    ⟨false,intern,throwException .invalidArgument
      "Expected timestamp to be an unsigned 32-bit integer, %ld given" [.num timestamp.toInt] eg⟩
  else ⟨true,some ⟨timestamp.toUInt64.toUInt32,increment.toUInt64.toUInt32⟩,eg⟩

/-- `php_phongo_timestamp_init_from_string` -/
def initFromString (intern : Option Timestamp) (increment timestamp : Bytes) (eg : Pending) :
    Initialisation Timestamp :=
  match parseInt64 strtoll increment with
  | none => ⟨false,intern,throwException .invalidArgument
      "Error parsing \"%s\" as 64-bit integer increment for %s initialization"
      [.bytes (cstr increment),.bytes className] eg⟩
  | some i =>
    match parseInt64 strtoll timestamp with
    | none => ⟨false,intern,throwException .invalidArgument
        "Error parsing \"%s\" as 64-bit integer timestamp for %s initialization"
        [.bytes (cstr timestamp),.bytes className] eg⟩
    | some t => init intern i t eg

/-- `php_phongo_timestamp_init_from_hash` -/
def initFromHash (intern : Option Timestamp) (props : Props) (eg : Pending) :
    Initialisation Timestamp :=
  match props.findStr "increment", props.findStr "timestamp" with
  | some (.long increment), some (.long timestamp) => init intern increment timestamp eg
  | some (.string increment), some (.string timestamp) =>
    initFromString strtoll intern increment timestamp eg
  | _, _ => ⟨false,intern,throwException .invalidArgument
      "%s initialization requires \"increment\" and \"timestamp\" integer or numeric string fields"
      [.bytes className] eg⟩

/-- `php_phongo_timestamp_get_properties_hash`, and the array that `serialize` writes -/
def getProperties (t : Timestamp) : Props :=
  [property "increment" (.string (digits t.increment.toNat)),
    property "timestamp" (.string (digits t.timestamp.toNat))]

def valueClass : ValueClass Timestamp where
  name := className
  initFromHash := initFromHash strtoll
  getProperties t := pure (getProperties t)
  magicSerialized t := pure (getProperties t)
  serialized t := pure (getProperties t)
  cloneObject t eg :=
    some (init none (Int64.ofNat t.increment.toNat) (Int64.ofNat t.timestamp.toNat) eg)
  hasSetState := true

end Timestamp
end Classes

section RoundTrip
variable {strtoll : AsciiStrtoll} (hstrtoll : strtoll.Exact)

/-- A copy without an exception holds the same value. -/
def Restored {Intern : Type} (intern : Intern) (r : Option (Initialisation Intern)) : Prop :=
  ValueClass.Copied (· = intern) r

/-- The ways to a copy that go through a string or an array of `serialize`. -/
def IsSerialization (path : CopyPath) : Prop := path = .serialize ∨ path = .magicSerialize

theorem restored_some {Intern : Type} (intern : Intern) :
    Restored intern (some ⟨true,some intern,[]⟩) :=
  ValueClass.copied_some.mpr rfl

theorem longToStr_ofNat {n : ℕ} (h : n < 2^63) : longToStr (Int64.ofNat n) = digits n := by
  have hn : (Int64.ofNat n).toInt = n := Int64.toInt_ofNat_of_lt h
  unfold longToStr
  rw [hn]

/-- What a `uint32_t` holds passes the range checks and is kept. -/
theorem inRange_ofUInt32 (n : UInt32) :
    ¬ (Int64.ofNat n.toNat < 0 ∨ Int64.ofNat n.toNat > 4294967295) := by
  have hlt := n.toNat_lt
  have hint : (Int64.ofNat n.toNat).toInt = n.toNat := Int64.toInt_ofNat_of_lt (by omega)
  rintro (hneg | hbig)
  · rw [Int64.lt_iff_toInt_lt,hint,Int64.toInt_zero] at hneg
    omega
  · rw [gt_iff_lt,Int64.lt_iff_toInt_lt,hint] at hbig
    simp at hbig
    omega

theorem init_ofUInt32 (intern : Option Timestamp) (t : Timestamp) (eg : Pending) :
    Timestamp.init intern (Int64.ofNat t.increment.toNat) (Int64.ofNat t.timestamp.toNat) eg =
      ⟨true,some t,eg⟩ := by
  unfold Timestamp.init
  rw [if_neg (inRange_ofUInt32 _),if_neg (inRange_ofUInt32 _)]
  simp

section
include hstrtoll

theorem initFromString_longToStr (format : String) (className : Bytes) (intern : Option Int64)
    (n : Int64) (eg : Pending) :
    initFromString strtoll format className intern (longToStr n) eg = ⟨true,some n,eg⟩ := by
  rw [initFromString,parseInt64_longToStr hstrtoll]

/-- A number that is exported as the string of one property. -/
theorem int64_initFromHash (n : Int64) (eg : Pending) :
    Int64.initFromHash strtoll none (Int64.getProperties n) eg = ⟨true,some n,eg⟩ :=
  initFromString_longToStr hstrtoll _ _ _ _ _

theorem utcDateTime_initFromHash (n : Int64) (eg : Pending) :
    UTCDateTime.initFromHash strtoll none (UTCDateTime.getProperties n) eg = ⟨true,some n,eg⟩ :=
  initFromString_longToStr hstrtoll _ _ _ _ _

theorem cursorId_initFromHash (n : Int64) (eg : Pending) :
    CursorId.initFromHash strtoll none (CursorId.serialized n) eg = ⟨true,some n,eg⟩ :=
  initFromString_longToStr hstrtoll _ _ _ _ _

theorem timestamp_initFromHash (t : Timestamp) (eg : Pending) :
    Timestamp.initFromHash strtoll none (Timestamp.getProperties t) eg = ⟨true,some t,eg⟩ := by
  have hparse : ∀ n : UInt32,
      parseInt64 strtoll (digits n.toNat) = some (Int64.ofNat n.toNat) := fun n => by
    have hlt := n.toNat_lt
    have hfits : n.toNat < 2^63 := by omega
    rw [← longToStr_ofNat hfits,parseInt64_longToStr hstrtoll]
  show Timestamp.initFromString strtoll none (digits t.increment.toNat)
    (digits t.timestamp.toNat) eg = _
  unfold Timestamp.initFromString
  rw [hparse,hparse]
  exact init_ofUInt32 none t eg

end

variable {F : SerialFormat} {tables : BsonObject → Option Props}

theorem restored_serialization {Intern : Type} {C : ValueClass Intern} {intern : Intern}
    {props : Props} (hserialized : C.serialized intern [] = (some props,[]))
    (hmagic : C.magicSerialized intern [] = (some props,[]))
    (hrestores : Restores F (.array none props))
    (hinit : C.initFromHash none props [] = ⟨true,some intern,[]⟩)
    {path : CopyPath} (hpath : IsSerialization path) :
    Restored intern (C.copy F tables intern path) := by
  rcases hpath with rfl | rfl
  · rw [ValueClass.copy_serialize hserialized hrestores,hinit]
    exact restored_some intern
  · rw [ValueClass.copy,ValueClass.whenExported_of_eq hmagic,hinit]
    exact restored_some intern

/-- Where the properties are the same table, `__set_state` is served as well. -/
theorem restored_of_ne_clone {Intern : Type} {C : ValueClass Intern} {intern : Intern}
    {props : Props} (hserialized : C.serialized intern [] = (some props,[]))
    (hmagic : C.magicSerialized intern [] = (some props,[]))
    (hproperties : C.getProperties intern [] = (some props,[])) (hset : C.hasSetState = true)
    (hrestores : Restores F (.array none props))
    (hinit : C.initFromHash none props [] = ⟨true,some intern,[]⟩)
    {path : CopyPath} (hpath : path ≠ .clone) : Restored intern (C.copy F tables intern path) := by
  cases path with
  | clone => exact absurd rfl hpath
  | serialize => exact restored_serialization hserialized hmagic hrestores hinit (Or.inl rfl)
  | magicSerialize => exact restored_serialization hserialized hmagic hrestores hinit (Or.inr rfl)
  | setState =>
    rw [ValueClass.copy,ValueClass.whenExported_of_eq hproperties,if_pos hset,hinit]
    exact restored_some intern

theorem restores_int64String (F : SerialFormat) {name : String}
    (hnormal : Key.Normal (.str (ascii name))) (n : Int64) :
    Restores F (.array none [property name (int64String n)]) :=
  restores_single F trivial hnormal

theorem restores_timestamp {t : Timestamp} :
    Restores F (.array none (Timestamp.getProperties t)) :=
  restores_pair F trivial trivial (by decide) (by decide) (by decide)

/-- Every number comes back from both serializations, and from `__set_state` of the properties
where these are strings. -/
theorem numeric_roundTrips (strtoll : AsciiStrtoll) (hstrtoll : strtoll.Exact) (F : SerialFormat)
    (tables : BsonObject → Option Props) :
    (∀ (integer : Int64) (path : CopyPath), IsSerialization path →
      Restored integer ((Int64.valueClass strtoll).copy F tables integer path)) ∧
    (∀ (milliseconds : Int64) (path : CopyPath), path ≠ .clone →
      Restored milliseconds ((UTCDateTime.valueClass strtoll).copy F tables milliseconds path)) ∧
    (∀ (id : Int64) (path : CopyPath), IsSerialization path →
      Restored id ((CursorId.valueClass strtoll).copy F tables id path)) ∧
    (∀ (t : Timestamp) (path : CopyPath), path ≠ .clone →
      Restored t ((Timestamp.valueClass strtoll).copy F tables t path)) := by
  refine ⟨fun n path hpath => ?_,fun n path hpath => ?_,fun n path hpath => ?_,
    fun t path hpath => ?_⟩
  · exact restored_serialization rfl rfl (restores_int64String F (by decide) n)
      (int64_initFromHash hstrtoll n []) hpath
  · exact restored_of_ne_clone rfl rfl rfl rfl (restores_int64String F (by decide) n)
      (utcDateTime_initFromHash hstrtoll n []) hpath
  · exact restored_serialization rfl rfl (restores_int64String F (by decide) n)
      (cursorId_initFromHash hstrtoll n []) hpath
  · exact restored_of_ne_clone rfl rfl rfl rfl restores_timestamp
      (timestamp_initFromHash hstrtoll t []) hpath

end RoundTrip

section Examples

def strtollExact : AsciiStrtoll := MongocWriteConcern.plain.asciiStrtoll

theorem exact_strtollExact : strtollExact.Exact := MongocWriteConcern.plain_lawful.strtoll

theorem numeric_roundTrips_minimum :
    Restored (-9223372036854775808) ((UTCDateTime.valueClass strtollExact).copy .scalars
      (fun _ => none) (-9223372036854775808) .serialize) :=
  (numeric_roundTrips strtollExact exact_strtollExact .scalars fun _ => none).2.1 _ .serialize
    (by decide)

/-- What `var_export` prints of an Int64 calls a method that is not there. -/
theorem not_int64_roundTrips : ¬ ∀ (n : Int64) (path : CopyPath), path ≠ .clone →
    Restored n ((Int64.valueClass strtollExact).copy .scalars (fun _ => none) n path) := by
  intro h
  obtain ⟨n,hn,-⟩ := h 0 .setState (by decide)
  cases hn

end Examples
end Numeric
end Phongo
