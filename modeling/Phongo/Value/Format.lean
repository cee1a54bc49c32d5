import Mathlib.Tactic.Common
import Phongo.Bson.Persistable
import Phongo.Value.Binary
import Phongo.Value.Javascript
import Phongo.Value.Numeric
import Phongo.Value.Regex
import Phongo.Value.Text

/-! PHP's serialization format with the objects of the driver in it. Each is written by its own
`serialize` method and read by its own `unserialize`, which use the format again. -/
namespace Phongo
open OrderedTable

/-- The classes of the objects that BSON values are decoded to. -/
inductive ValueKind
  | objectId | utcDateTime | binary | decimal128 | int64 | regex | javascript | timestamp
  | maxKey | minKey | dbPointer | symbol | undefined
  deriving DecidableEq

namespace ValueKind

def all : List ValueKind := [objectId,utcDateTime,binary,decimal128,int64,regex,javascript,
  timestamp,maxKey,minKey,dbPointer,symbol,undefined]

def className : ValueKind → Bytes
  | objectId => ObjectId.className
  | utcDateTime => Numeric.UTCDateTime.className
  | binary => Binary.className
  | decimal128 => Decimal128.className
  | int64 => Numeric.Int64.className
  | regex => Regex.className
  | javascript => Javascript.className
  | timestamp => Numeric.Timestamp.className
  | maxKey => ascii "MongoDB\\BSON\\MaxKey"
  | minKey => ascii "MongoDB\\BSON\\MinKey"
  | dbPointer => DbPointer.className
  | symbol => Symbol.className
  | undefined => ascii "MongoDB\\BSON\\Undefined"

def ofName (name : Bytes) : Option ValueKind := all.find? fun k => k.className = name

theorem ofName_className (k : ValueKind) : ofName k.className = some k := by
  cases k <;> decide +kernel

end ValueKind

def BsonObject.kind : BsonObject → ValueKind
  | .objectId _ => .objectId
  | .utcDateTime _ => .utcDateTime
  | .binary _ _ => .binary
  | .decimal128 _ _ => .decimal128
  | .int64 _ => .int64
  | .regex _ _ => .regex
  | .javascript _ _ => .javascript
  | .timestamp _ _ => .timestamp
  | .maxKey => .maxKey
  | .minKey => .minKey
  | .dbPointer _ _ => .dbPointer
  | .symbol _ => .symbol
  | .undefined => .undefined

theorem BsonObject.className_kind (obj : BsonObject) : obj.kind.className = obj.className := by
  cases obj <;> rfl

/-- What the methods of the value classes call outside of the driver. -/
structure ValueOutside where
  text : TextLibbson
  userland : Userland
  strtoll : AsciiStrtoll
  /-- whether a `char` is signed -/
  signed : Bool
  doubleText : UInt64 → Bytes
  readDouble : Bytes → Option UInt64
  /-- an object of a class of the application, unserialized from its properties -/
  readObject : Bytes → List (Key × Zval) → Option Zval
  /-- the property tables of the driver's objects -/
  tables : BsonObject → Option Props

/-- The object after its `unserialize` method, if that threw nothing. -/
def revived {Intern : Type} (toObject : Intern → BsonObject) :
    Option (Initialisation Intern) → Option BsonObject
  | some ⟨true,some intern,[]⟩ => some (toObject intern)
  | _ => none

/-- What a `serialize` method returns; an empty string where its export threw. -/
def written (F : SerialFormat) (exported : Attempt Exception Props) : Bytes :=
  match exported [] with
  | (some props,[]) => serializeProps F props
  | _ => []

namespace ValueOutside
variable (V : ValueOutside) (F : SerialFormat)

abbrev libbson : Libbson := V.text.libbson

/-- The `serialize` methods; `F` is the format they write their tables in. -/
def payload : BsonObject → Bytes
  | .objectId oid => written F ((ObjectId.valueClass V.text).serialized oid)
  | .utcDateTime n => written F ((Numeric.UTCDateTime.valueClass V.strtoll).serialized n)
  | .binary data type => written F (Binary.valueClass.serialized ⟨data,type⟩)
  | .decimal128 high low => written F ((Decimal128.valueClass V.text).serialized (high,low))
  | .int64 n => written F ((Numeric.Int64.valueClass V.strtoll).serialized n)
  | .regex pattern flags => written F ((Regex.valueClass V.signed).serialized ⟨pattern,flags⟩)
  | .javascript code scope =>
    written F ((Javascript.valueClass V.libbson V.userland).serialized ⟨code,scope⟩)
  | .timestamp t i => written F ((Numeric.Timestamp.valueClass V.strtoll).serialized ⟨t,i⟩)
  | .dbPointer ref id => written F ((DbPointer.valueClass V.text).serialized ⟨ref,id⟩)
  | .symbol symbol => written F (Symbol.valueClass.serialized symbol)
  | .maxKey | .minKey | .undefined => []

/-- An object of a class after its `unserialize` method. -/
def readAs (payload : Bytes) : ValueKind → Option BsonObject
  | .objectId => revived .objectId
      ((ObjectId.valueClass V.text).unserializeMethod F V.tables none payload [])
  | .utcDateTime => revived .utcDateTime
      ((Numeric.UTCDateTime.valueClass V.strtoll).unserializeMethod F V.tables none payload [])
  | .binary => revived Binary.toObject
      (Binary.valueClass.unserializeMethod F V.tables none payload [])
  | .decimal128 => revived (fun decimal => .decimal128 decimal.1 decimal.2)
      ((Decimal128.valueClass V.text).unserializeMethod F V.tables none payload [])
  | .int64 => revived .int64
      ((Numeric.Int64.valueClass V.strtoll).unserializeMethod F V.tables none payload [])
  | .regex => revived (fun r => .regex r.pattern r.flags)
      ((Regex.valueClass V.signed).unserializeMethod F V.tables none payload [])
  | .javascript => revived (fun js => .javascript js.code js.scope)
      ((Javascript.valueClass V.libbson V.userland).unserializeMethod F V.tables none payload [])
  | .timestamp => revived (fun t => .timestamp t.timestamp t.increment)
      ((Numeric.Timestamp.valueClass V.strtoll).unserializeMethod F V.tables none payload [])
  | .dbPointer => revived (fun p => .dbPointer p.ref p.id)
      ((DbPointer.valueClass V.text).unserializeMethod F V.tables none payload [])
  | .symbol => revived .symbol (Symbol.valueClass.unserializeMethod F V.tables none payload [])
  | .maxKey => some .maxKey
  | .minKey => some .minKey
  | .undefined => some .undefined

def readPayload (name payload : Bytes) : Option BsonObject :=
  (ValueKind.ofName name).bind (V.readAs F payload)

/-- A format with the driver's objects, whose own tables are written in the format `F`. -/
def objects : SerialFormat where
  doubleText := V.doubleText
  readDouble := V.readDouble
  payload := V.payload F
  readPayload := V.readPayload F
  readObject := V.readObject

/-- The format of the tables of objects that no object may contain any more. -/
def scalars : SerialFormat where
  doubleText := V.doubleText
  readDouble := V.readDouble
  payload _ := []
  readPayload _ _ := none
  readObject := V.readObject

/-- `php_var_serialize` and `php_var_unserialize` where scopes of Javascript code are nested at
most so deep. -/
def format : ℕ → SerialFormat
  | 0 => V.objects V.scalars
  | depth+1 => V.objects (format depth)

/-- The functions outside as documented. A float is written without a semicolon, and libbson
takes the options of a regular expression in any order. -/
structure Lawful : Prop where
  libbson : V.libbson.Lawful
  text : V.text.Lawful
  strtoll : V.strtoll.Exact
  doubleText : ∀ bits, (59 : UInt8) ∉ V.doubleText bits
  regexOptions : ∀ o o' : CString, o.bytes.Perm o'.bytes →
    V.libbson.regexOptions o = V.libbson.regexOptions o'

section Reading
variable {V F}

theorem readPayload_className (obj : BsonObject) (payload : Bytes) :
    V.readPayload F obj.className payload = V.readAs F payload obj.kind := by
  rw [readPayload,← obj.className_kind,ValueKind.ofName_className]
  rfl

/-- Nested objects are copied as `serialize` and `unserialize` copy them outside. -/
theorem revived_written {Intern : Type} (C : ValueClass Intern) (intern : Intern)
    (toObject : Intern → BsonObject) :
    revived toObject (C.unserializeMethod F V.tables none (written F (C.serialized intern)) []) =
      revived toObject (C.copy F V.tables intern .serialize) := by
  unfold written ValueClass.copy ValueClass.whenExported
  dsimp only
  rcases C.serialized intern [] with ⟨_ | props,_ | ⟨e,eg⟩⟩ <;> rfl

theorem revived_of_copied {Intern : Type} {toObject : Intern → BsonObject} {intern : Intern}
    {r : Option (Initialisation Intern)} (h : ValueClass.Copied (· = intern) r) :
    revived toObject r = some (toObject intern) := by
  obtain ⟨intern',rfl,rfl⟩ := h
  rfl

theorem revived_of_exceptions {Intern : Type} {toObject : Intern → BsonObject}
    {r : Initialisation Intern} (h : r.exceptions ≠ []) : revived toObject (some r) = none := by
  obtain ⟨ok,handle,eg⟩ := r
  cases eg with
  | nil => exact absurd rfl h
  | cons e eg => cases ok <;> cases handle <;> rfl

variable (V F) in
/-- The object that is read where `obj` was written. -/
def reads (obj : BsonObject) : Option BsonObject :=
  V.readPayload F obj.className (V.payload F obj)

theorem reads_objectId (hV : V.Lawful) (o : Oid) :
    V.reads F (.objectId (V.libbson.oidToString o)) =
      some (.objectId (V.libbson.oidToString o)) := by
  rw [reads,readPayload_className]
  refine (revived_written (ObjectId.valueClass V.text) _ _).trans (revived_of_copied ?_)
  exact objectId_copied hV.text (.decode (o:=o) rfl) .serialize

theorem reads_utcDateTime (hV : V.Lawful) (n : Int64) :
    V.reads F (.utcDateTime n) = some (.utcDateTime n) := by
  rw [reads,readPayload_className]
  refine (revived_written (Numeric.UTCDateTime.valueClass V.strtoll) _ _).trans
    (revived_of_copied ?_)
  exact Numeric.restored_of_ne_clone rfl rfl rfl rfl
    (Numeric.restores_int64String F (by decide) n) (Numeric.utcDateTime_initFromHash hV.strtoll n [])
    (by decide)

theorem reads_timestamp (hV : V.Lawful) (t i : UInt32) :
    V.reads F (.timestamp t i) = some (.timestamp t i) := by
  rw [reads,readPayload_className]
  have hcopied : ValueClass.Copied (· = ⟨t,i⟩)
      ((Numeric.Timestamp.valueClass V.strtoll).copy F V.tables ⟨t,i⟩ .serialize) :=
    Numeric.restored_of_ne_clone rfl rfl rfl rfl Numeric.restores_timestamp
      (Numeric.timestamp_initFromHash hV.strtoll ⟨t,i⟩ []) (by decide)
  exact (revived_written (Numeric.Timestamp.valueClass V.strtoll) ⟨t,i⟩ _).trans
    (revived_of_copied hcopied)

theorem reads_binary (data : Bytes) (type : UInt8) : V.reads F (.binary data type) =
    if (Binary.mk data type).MislengthedUuid then none else some (.binary data type) := by
  rw [reads,readPayload_className]
  refine (revived_written Binary.valueClass ⟨data,type⟩ _).trans ?_
  rw [Binary.copy_eq,Binary.init_longOfByte]
  split
  · exact revived_of_exceptions (List.cons_ne_nil _ _)
  · rfl

theorem reads_decimal128 {high low : UInt64} {ok : Bool} {decimal : UInt64 × UInt64}
    (h : V.text.decimal128FromString (V.text.decimal128ToString (high,low)) = (ok,decimal)) :
    V.reads F (.decimal128 high low) =
      if ok then some (.decimal128 decimal.1 decimal.2) else none := by
  rw [reads,readPayload_className]
  refine (revived_written (Decimal128.valueClass V.text) (high,low) _).trans ?_
  rw [ValueClass.copy_serialize rfl (restores_decimal128 (high,low))]
  show revived _ (some (Decimal128.init V.text none
    (V.text.decimal128ToString (high,low)).bytes [])) = _
  rw [Decimal128.init,CString.ofBytes_bytes,h]
  cases ok with
  | false => exact revived_of_exceptions (List.cons_ne_nil _ _)
  | true => rfl

theorem reads_regex (pattern flags : CString) : V.reads F (.regex pattern flags) =
    some (.regex pattern (sortFlags V.signed flags)) := by
  rw [reads,readPayload_className]
  refine (revived_written (Regex.valueClass V.signed) ⟨pattern,flags⟩ _).trans ?_
  rw [Regex.copy_eq]
  rfl

theorem reads_symbol (symbol : Bytes) : V.reads F (.symbol symbol) =
    if (0 : UInt8) ∈ symbol then none else some (.symbol symbol) := by
  rw [reads,readPayload_className]
  refine (revived_written Symbol.valueClass symbol _).trans ?_
  rw [ValueClass.copy_serialize rfl (restores_symbol symbol)]
  show revived _ (some (Symbol.init none symbol [])) = _
  unfold Symbol.init
  split
  · exact revived_of_exceptions (List.cons_ne_nil _ _)
  · rfl

theorem reads_dbPointer (hV : V.Lawful) (ref : Bytes) (o : Oid) :
    V.reads F (.dbPointer ref (V.libbson.oidToString o)) =
      if (0 : UInt8) ∈ ref then none else some (.dbPointer ref (V.libbson.oidToString o)) := by
  rw [reads,readPayload_className]
  refine (revived_written (DbPointer.valueClass V.text) ⟨ref,V.libbson.oidToString o⟩ _).trans ?_
  rw [ValueClass.copy_serialize rfl (restores_dbPointer ⟨ref,V.libbson.oidToString o⟩)]
  show revived _ (some (DbPointer.init V.text.oidIsValid none ref
    (V.libbson.oidToString o).bytes [])) = _
  rw [dbPointer_init_valid hV.text (hV.text.oidToString o)]
  split
  · exact revived_of_exceptions (List.cons_ne_nil _ _)
  · rfl

theorem reads_javascript {code : Bytes} {scope : Option Doc} {z : Zval}
    (hz : Javascript.exportScope V.libbson V.userland scope [] = (some z,[]))
    (hregular : Regular F z) : V.reads F (.javascript code scope) =
      (comesBack F z).bind fun z => revived (fun js => .javascript js.code js.scope)
        (some (Javascript.init V.libbson V.userland none code (some z) [])) := by
  rw [reads,readPayload_className]
  refine (revived_written (Javascript.valueClass V.libbson V.userland) ⟨code,scope⟩ _).trans ?_
  rw [Javascript.copy_serialize hz hregular]
  cases comesBack F z with
  | none => exact revived_of_exceptions (List.cons_ne_nil _ _)
  | some z => rfl

end Reading

/-- Functions as documented: ASCII text, floats as the number of their bits, and one class whose
objects return their properties. -/
def plain : ValueOutside where
  text := .hexadecimal
  userland := .persisting .person
  strtoll := Numeric.strtollExact
  signed := true
  doubleText bits := digits bits.toNat
  readDouble s := some (UInt64.ofNat (decimal s).toNat)
  readObject name properties :=
    if name = ClassEntry.person.name then
      let returned := .array none (properties.map fun e => (arrayKey e.1,e.2))
      some (.object .person none properties returned)
    else none
  tables _ := none

theorem plain_lawful : plain.Lawful where
  libbson := Libbson.ascii_lawful
  text := TextLibbson.hexadecimal_lawful
  strtoll := Numeric.exact_strtollExact
  doubleText bits h := by
    have hdigit := toNat_of_mem_digits h
    simp at hdigit
  regexOptions o o' h := by
    have hcontains : ∀ c, o.bytes.contains c = o'.bytes.contains c := fun c => by
      rw [Bool.eq_iff_iff,List.contains_iff_mem,List.contains_iff_mem,h.mem_iff]
    show CString.ofBytes _ = CString.ofBytes _
    simp only [hcontains]

end ValueOutside
end Phongo
