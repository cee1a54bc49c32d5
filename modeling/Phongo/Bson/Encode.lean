import Mathlib.Tactic.Common
import Phongo.Bson.Decode
import Phongo.Lib.Attempt

/-! PHP to BSON: `bson-encode.c`. Each function gives the elements it appends to the open
`bson_t` and the state that all levels of one encoding share. -/
namespace Phongo

structure Encoder where
  fieldPath : FieldPath
  /-- the tables under `php_phongo_zend_hash_apply_protection_begin` -/
  protectedTables : List ℕ
  exceptions : Pending
  generatedOids : ℕ
  /-- `*bson_out` -/
  bsonOut : Option Doc

/-- `php_phongo_bson_flags_t`; RETURN_ID counts only with a `bson_out`. -/
structure Flags where
  addId : Bool
  returnId : Bool

def Flags.none : Flags := ⟨false,false⟩

abbrev Append := Encoder → Doc × Encoder

namespace Encoder

def init (eg : Pending) : Encoder := ⟨FieldPath.alloc,[],eg,0,none⟩

def writeItem (e : Encoder) (key : CString) : Encoder :=
  { e with fieldPath := e.fieldPath.writeItemAtCurrentLevel key }

def enter (e : Encoder) (type : ItemType) : Encoder :=
  { e with fieldPath := (e.fieldPath.writeTypeAtCurrentLevel type).enter }

def leave (e : Encoder) : Encoder := { e with fieldPath := e.fieldPath.leave }

def throw (e : Encoder) (format : String) (args : List Arg) : Encoder :=
  { e with exceptions := throwException .unexpectedValue format args e.exceptions }

/-- `php_phongo_zend_hash_apply_protection_begin`; NULL, which a Javascript object with an
undecodable scope yields, is let through as PHP 7.2 does. -/
def protectionBegin (e : Encoder) : Option ℕ → Option Encoder
  | none => some e
  | some ht =>
    if ht ∈ e.protectedTables then none
    else some { e with protectedTables := ht::e.protectedTables }

/-- `php_phongo_zend_hash_apply_protection_end` -/
def protectionEnd (e : Encoder) : Option ℕ → Encoder
  | none => e
  | some ht => { e with protectedTables := e.protectedTables.erase ht }

end Encoder

theorem throw_ne_nil (e : Encoder) (format : String) (args : List Arg) :
    (e.throw format args).exceptions ≠ [] := by
  simp [Encoder.throw,throwException]

def appendElement (key : CString) (value : BsonValue) : Append := fun e => ([(key,value)],e)

def appendNothing : Append := fun e => ([],e)

/-- `BSON_APPEND_INT` on a 64-bit platform. -/
def appendInt (key : CString) (n : Int64) : Append :=
  if n > 2147483647 ∨ n < -2147483648 then appendElement key (.int64 n)
  else appendElement key (.int32 n.toInt32)

/-- `bson_append_document_begin` and `_end` around `body`. -/
def appendDocument (key : CString) (body : Append) : Append := fun e =>
  let r := body e
  ([(key,.document r.1)],r.2)

/-- `bson_append_array_begin` and `_end` around `body`. -/
def appendArray (key : CString) (body : Append) : Append := fun e =>
  let r := body e
  ([(key,.array r.1)],r.2)

/-- One level down the field path, under recursion protection of a table. -/
def guarded (ht : Option ℕ) (type : ItemType) (body : Append) : Append := fun e =>
  match e.protectionBegin ht with
  | none =>
    ([],e.throw "Detected recursion for field path \"%s\"" [.path e.fieldPath.asString])
  | some e =>
    let r := body (e.enter type)
    (r.1,r.2.leave.protectionEnd ht)

/-- The scan of `php_phongo_is_array_or_document`. -/
def keysAreIndices (n : ℕ) : List (Key × Zval) → Bool
  | [] => true
  | (.int i,_)::rest => i = Int64.ofNat n && keysAreIndices (n+1) rest
  | (.str _,_)::_ => false

/-- `php_phongo_is_array_or_document` returns `IS_ARRAY`. -/
def Zval.isBsonArray : Zval → Bool
  | .array _ els => keysAreIndices 0 els
  | _ => false

/-- The values `bsonSerialize()` may return. -/
def Zval.isArrayOrStdClass : Zval → Bool
  | .array _ _ => true
  | .object ce _ _ _ => ce.isStdClass
  | _ => false

/-- `zend_call_method` of `bsonSerialize()`, which the engine skips while an exception is
pending. -/
def callBsonSerialize (result : Zval) (e : Encoder) : Zval × Encoder :=
  if e.exceptions = [] then
    match result with
    | .undef thrown => (.undef thrown,{ e with exceptions := thrownBy thrown })
    | z => (z,e)
  else (.undef [],e)

/-- `HASH_OF` of an object with built-in handlers; only Javascript's can throw. -/
def hashOfBson (L : Libbson) (U : Userland) (obj : BsonObject) (e : Encoder) : Encoder :=
  match obj with
  | .javascript _ (some scope) =>
    { e with exceptions := (bsonToZvalEx L U (.read scope true) BsonState.init e.exceptions).exceptions }
  | _ => e

/-- The value classes of `php_phongo_bson_append_object`; those of libbson's functions that
take a `char*` see a string up to its first NUL. -/
def bsonObjectValue (L : Libbson) : BsonObject → BsonValue
  | .objectId oid => .oid (L.oidInitFromString oid)
  | .utcDateTime ms => .dateTime ms
  | .binary data type => .binary type data
  | .decimal128 high low => .decimal128 high low
  | .int64 n => .int64 n
  | .regex pattern flags => .regex pattern (L.regexOptions flags)
  | .javascript code (some scope) => .codeWithScope (cstr code) scope
  | .javascript code none => .code (cstr code)
  | .timestamp t i => .timestamp t i
  | .maxKey => .maxKey
  | .minKey => .minKey
  | .dbPointer ref id => .dbPointer (cstr ref) (L.oidInitFromString id)
  | .symbol s => .symbol s
  | .undefined => .undefined

def typeClassName : Bytes := ascii "MongoDB\\BSON\\Type"

def odmField (ce : ClassEntry) : CString × BsonValue := (odmFieldName,.binary 0x80 ce.name)

/-- What the loop of `php_phongo_zval_to_bson_internal` does with a key. -/
inductive KeyAction
  | skip
  | abort
  | append (key : CString)

def inspectKey (fromProperties skipOdmField : Bool) : Key → KeyAction
  | .int n => .append ⟨longToStr n,zero_notMem_longToStr n⟩
  | .str s =>
    -- private and protected properties are mangled with a leading NUL
    if fromProperties ∧ s.head? = some 0 then .skip
    else if h : (0 : UInt8) ∈ s then .abort
    else if skipOdmField ∧ s = odmFieldName.bytes then .skip
    else .append ⟨s,h⟩

/-- The loop's result: the elements appended, the rest of the ADD_ID flag, and whether a key
with a NUL ended it. -/
structure Looped where
  fields : Doc
  addId : Bool
  aborted : Bool
  encoder : Encoder

abbrev Loop := Bool → Encoder → Looped

def idName : CString := CString.lit "_id"

/-- What `php_phongo_zval_to_bson_internal` does after a loop that ran to its end. -/
def finishFields (L : Libbson) (returnId : Bool) (r : Looped) : Doc × Encoder :=
  let (fields,e) :=
    if r.addId then
      (r.fields ++ [(idName,.oid (L.oidInit r.encoder.generatedOids))],
        { r.encoder with generatedOids := r.encoder.generatedOids + 1 })
    else (r.fields,r.encoder)
  if returnId then
    (fields,{ e with bsonOut := some (fields.find? fun f => f.1 = idName).toList })
  else (fields,e)

/-- The loop and the rest of `php_phongo_zval_to_bson_internal`. -/
def closeFields (L : Libbson) (loop : Loop) (flags : Flags) : Append := fun e =>
  let r := loop flags.addId e
  if r.aborted then (r.fields,r.encoder) else finishFields L flags.returnId r

@[simp] theorem exceptions_closeFields (L : Libbson) (loop : Loop) (flags : Flags) (e : Encoder) :
    (closeFields L loop flags e).2.exceptions = (loop flags.addId e).encoder.exceptions := by
  simp only [closeFields]
  split
  · rfl
  · simp only [finishFields]
    split <;> split <;> rfl

/-- The message of an unexpected return type of `bsonSerialize()`. -/
def throwExpectedArray (ce : ClassEntry) (returned : Zval) (e : Encoder) : Encoder :=
  e.throw "Expected %s::%s() to return an array or stdClass, %s given"
    [.bytes ce.name,.bytes (ascii "bsonSerialize"),.bytes returned.classOrTypeName]

/-- `php_phongo_zval_to_bson_internal` on an object: `table` loops over the value its
`bsonSerialize()` returned, `properties` over its own property table. -/
def internalObject (L : Libbson) (ce : ClassEntry) (returned : Zval) (table properties : Loop)
    (flags : Flags) : Append := fun e =>
  if ce.isSerializable then
    let (returned,e) := callBsonSerialize returned e
    if returned.isUndef then ([],e)
    else if !returned.isArrayOrStdClass then ([],throwExpectedArray ce returned e)
    else
      let r := closeFields L table flags e
      if ce.isPersistable then (odmField ce::r.1,r.2) else r
  else if ce.isType then
    ([],e.throw "%s instance %s cannot be serialized as a root element"
      [.bytes typeClassName,.bytes ce.name])
  else closeFields L properties flags e

/-- `php_phongo_bson_append_object` on an object of a userland class: `nested` is
`php_phongo_zval_to_bson_internal` on what its `bsonSerialize()` returned, `own` on itself. -/
def appendObject (key : CString) (ce : ClassEntry) (returned : Zval) (nested own : Append) :
    Append := fun e =>
  if ce.isType then
    if ce.isSerializable then
      let (returned,e) := callBsonSerialize returned e
      if returned.isUndef then ([],e)
      else if !returned.isArrayOrStdClass then ([],throwExpectedArray ce returned e)
      else if ce.isPersistable || !returned.isBsonArray then
        appendDocument key (fun e =>
          let r := nested e
          if ce.isPersistable then (odmField ce::r.1,r.2) else r) e
      else appendArray key nested e
    else
      ([],e.throw "Unexpected %s instance: %s" [.bytes typeClassName,.bytes ce.name])
  else appendDocument key own e

def throwUnsupportedType (number : ℤ) (z : Zval) : Append := fun e =>
  ([],e.throw "Detected unsupported PHP type for field path \"%s\": %d (%s)"
    [.path e.fieldPath.asString,.num number,.bytes z.classOrTypeName])

def appendString (L : Libbson) (key : CString) (s : Bytes) : Append := fun e =>
  if L.utf8Validate s true then ([(key,.utf8 s)],e)
  else
    ([],e.throw "Detected invalid UTF-8 for field path \"%s\": %s"
      [.path e.fieldPath.asString,.bytes (cstr s)])

mutual

/-- The `switch` of `php_phongo_bson_append`, the path being written already. -/
def appendValue (L : Libbson) (U : Userland) (key : CString) : Zval → Append
  | .undef thrown => throwUnsupportedType 0 (.undef thrown)
  | .null => appendElement key .null
  | .bool b => appendElement key (.bool b)
  | .long n => appendInt key n
  | .double bits => appendElement key (.double bits)
  | .string s => appendString L key s
  | .array ht els =>
    let body := closeFields L (appendAll L U false false els) .none
    if keysAreIndices 0 els then guarded ht .array (appendArray key body)
    else guarded ht .document (appendDocument key body)
  | .bson obj => fun e =>
    guarded none .document (appendElement key (bsonObjectValue L obj)) (hashOfBson L U obj e)
  | .cursorId id => guarded none .document (appendElement key (.int64 id))
  | .object ce ht properties returned =>
    guarded ht .document (appendObject key ce returned (internal L U returned .none)
      (internalObject L ce returned (appendTable L U false ce.isPersistable returned)
        (appendAll L U true false properties) .none))
  | .reference z => appendValue L U key z
  | .resource => throwUnsupportedType 9 .resource

/-- `php_phongo_zval_to_bson_internal` -/
def internal (L : Libbson) (U : Userland) : Zval → Flags → Append
  | .array _ els => closeFields L (appendAll L U false false els)
  | .object ce _ properties returned =>
    internalObject L ce returned (appendTable L U false ce.isPersistable returned)
      (appendAll L U true false properties)
  | .bson obj => fun _ e =>
    ([],e.throw "%s instance %s cannot be serialized as a root element"
      [.bytes typeClassName,.bytes obj.className])
  | .cursorId id => closeFields L fun addId e =>
    let r := appendInt (CString.lit "id") id (e.writeItem (CString.lit "id"))
    ⟨r.1,addId,false,r.2⟩
  | .undef _ | .null | .bool _ | .long _ | .double _ | .string _ | .reference _ | .resource =>
    fun _ => appendNothing

/-- The loop over `HASH_OF(&obj_data)`. -/
def appendTable (L : Libbson) (U : Userland) (fromProperties skipOdmField : Bool) : Zval → Loop
  | .array _ els => appendAll L U fromProperties skipOdmField els
  | .object _ _ properties _ => appendAll L U fromProperties skipOdmField properties
  | .undef _ | .null | .bool _ | .long _ | .double _ | .string _ | .bson _ | .cursorId _
  | .reference _ | .resource => fun addId e => ⟨[],addId,false,e⟩

/-- The loop of `php_phongo_zval_to_bson_internal`. -/
def appendAll (L : Libbson) (U : Userland) (fromProperties skipOdmField : Bool) :
    List (Key × Zval) → Loop
  | [] => fun addId e => ⟨[],addId,false,e⟩
  | (key,value)::rest => fun addId e =>
    match inspectKey fromProperties skipOdmField key with
    | .skip => appendAll L U fromProperties skipOdmField rest addId e
    | .abort =>
      ⟨[],addId,true,e.throw
        "BSON keys cannot contain null bytes. Unexpected null byte after \"%s\"."
        [.bytes (cstr key.toStr)]⟩
    | .append name =>
      let addId := addId && key ≠ .str idName.bytes
      let r := appendValue L U name value (e.writeItem name)
      let s := appendAll L U fromProperties skipOdmField rest addId r.2
      { s with fields := r.1 ++ s.fields }

end

/-- `php_phongo_zval_to_bson`: the document, what it stores in `*bson_out`, and the pending
exceptions. -/
def zvalToBson (L : Libbson) (U : Userland) (data : Zval) (flags : Flags) (eg : Pending) :
    Doc × Option Doc × Pending :=
  let r := internal L U data flags (Encoder.init eg)
  (r.1,r.2.bsonOut,r.2.exceptions)

/-- `php_phongo_zval_to_bson` without flags, which does not tell whether it threw. -/
def zvalToDoc (L : Libbson) (U : Userland) (z : Zval) : Attempt Exception Doc := fun eg =>
  let r := zvalToBson L U z .none eg
  (some r.1,r.2.2)

end Phongo
