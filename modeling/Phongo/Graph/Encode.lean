import Phongo.Bson.Encode
import Phongo.Bson.Rendering

/-! `bson-encode.c` on a PHP heap, where values are shared and may contain themselves.
Each function runs on what all levels of one encoding share and gives the elements it appends.
What the encoder meets on its way is recorded. -/
namespace Phongo

/-- Values that hold no object, reference or array of the heap: scalars, and the immutable
arrays of compiled code, whose recursion flag is never set. -/
inductive Plain
  | null
  | bool (b : Bool)
  | long (n : Int64)
  | double (bits : UInt64)
  | string (s : Bytes)
  | resource
  | immutable (elements : List (Key × Plain))

/-- A value; `T` are the hash tables of the heap and `O` its objects. -/
inductive HeapValue (T O : Type)
  | plain (p : Plain)
  | array (t : T)
  | object (o : O)

/-- What a table holds under a key. A reference never holds a reference. -/
inductive Slot (T O R : Type)
  | value (v : HeapValue T O)
  | reference (r : R)

/-- What a call of `bsonSerialize()` comes to; it returns a value of the heap. -/
inductive Returned (T O : Type)
  | threw (ids : List ℕ)
  | value (v : HeapValue T O)

inductive HeapObject (T O : Type)
  | bson (obj : BsonObject) (table : T)
  | cursorId (id : Int64) (table : T)
  | user (ce : ClassEntry) (table : T) (bsonSerialize : Returned T O)

structure PhpHeap (T O R : Type) where
  elements : T → List (Key × Slot T O R)
  objects : O → HeapObject T O
  references : R → HeapValue T O

/-- What an encoding leaves behind besides the document. -/
structure Output where
  exceptions : Pending
  generatedOids : ℕ
  /-- `*bson_out` -/
  bsonOut : Option Doc
  /-- the field paths rendered where the scopes of Javascript objects were decoded -/
  scopePaths : List FieldPath

/-- A value at which recursion protection begins, the values it is inside of, innermost first,
and the table that is to be protected, or NULL. -/
structure Meeting (T O : Type) where
  around : List (HeapValue T O)
  value : HeapValue T O
  table : Option T

structure GraphEncoder (T O : Type) where
  output : Output
  fieldPath : FieldPath
  /-- the tables whose recursion flag is set -/
  recursive : List T
  around : List (HeapValue T O)
  met : List (Meeting T O)
  /-- the states of `fieldPath` that `php_phongo_field_path_as_string` was called on -/
  rendered : List FieldPath
  /-- the model ran out of fuel -/
  ranOut : Bool

abbrev Encode (T O : Type) := StateM (GraphEncoder T O)

namespace Graph
variable {T O R V α : Type}

def deref (h : PhpHeap T O R) : Slot T O R → HeapValue T O
  | .value v => v
  | .reference r => h.references r

section Steps

def onOutput (f : Output → α × Output) : Encode T O α := fun e =>
  let r := f e.output
  (r.1,{ e with output := r.2 })

def Output.throw (format : String) (args : List Arg) (out : Output) : Output :=
  { out with exceptions := throwException .unexpectedValue format args out.exceptions }

def throw (format : String) (args : List Arg) : Encode T O Doc :=
  onOutput fun out => ([],Output.throw format args out)

def throwAt (format : String) (args : List Arg) : Encode T O Doc := fun e =>
  ([],{ e with
    output := Output.throw format (.path e.fieldPath.asString::args) e.output
    rendered := e.rendered ++ [e.fieldPath] })

/-- `php_phongo_bson_append` writes the path first. -/
def element (key : CString) (body : Encode T O Doc) : Encode T O Doc := fun e =>
  body { e with fieldPath := e.fieldPath.writeItemAtCurrentLevel key }

def nested (type : ItemType) (body : Encode T O Doc) : Encode T O Doc := fun e =>
  let r := body { e with fieldPath := (e.fieldPath.writeTypeAtCurrentLevel type).enter }
  (r.1,{ r.2 with fieldPath := r.2.fieldPath.leave })

def runOut : Encode T O Doc := fun e => ([],{ e with ranOut := true })

def detectedRecursion : String := "Detected recursion for field path \"%s\""

/-- Nothing is recorded beyond the fuel. -/
def GraphEncoder.meet (e : GraphEncoder T O) (v : HeapValue T O) (ht : Option T) :
    GraphEncoder T O :=
  if e.ranOut then e else { e with met := e.met ++ [⟨e.around,v,ht⟩] }

/-- `php_phongo_zend_hash_apply_protection_begin` and `_end` around `body`, on PHP 7.3 and later,
but for NULL, which is let through. Without `protects` every table is let through. -/
def guarded [DecidableEq T] (protects : Bool) (v : HeapValue T O) (ht : Option T) (type : ItemType)
    (body : Encode T O Doc) : Encode T O Doc := fun e =>
  let e := GraphEncoder.meet e v ht
  let flag := if protects then ht.toList else []
  if flag.any (· ∈ e.recursive) then throwAt detectedRecursion [] e
  else
    let r := nested type body { e with
      recursive := flag ++ e.recursive
      around := v::e.around }
    (r.1,{ r.2 with
      recursive := flag.foldl List.erase r.2.recursive
      around := r.2.around.tail })

end Steps

def appendDocument (key : CString) (body : Encode T O Doc) : Encode T O Doc := do
  let fields ← body
  return [(key,.document fields)]

def appendArray (key : CString) (body : Encode T O Doc) : Encode T O Doc := do
  let fields ← body
  return [(key,.array fields)]

/-- `BSON_APPEND_INT` on a 64-bit platform. -/
def intElement (key : CString) (n : Int64) : Doc :=
  if n > 2147483647 ∨ n < -2147483648 then [(key,.int64 n)] else [(key,.int32 n.toInt32)]

/-- How the loop of `php_phongo_zval_to_bson_internal` ends. -/
structure LoopEnd where
  fields : Doc
  addId : Bool
  aborted : Bool

abbrev Loop (T O : Type) := Bool → Encode T O LoopEnd

def emptyLoop : Loop T O := fun addId => return ⟨[],addId,false⟩

/-- The loop of `php_phongo_zval_to_bson_internal`; `append` is `php_phongo_bson_append`. -/
def appendAll (append : CString → V → Encode T O Doc) (fromProperties skipOdmField : Bool) :
    List (Key × V) → Loop T O
  | [] => emptyLoop
  | (key,v)::rest => fun addId =>
    match inspectKey fromProperties skipOdmField key with
    | .skip => appendAll append fromProperties skipOdmField rest addId
    | .abort => do
      let fields ← throw "BSON keys cannot contain null bytes. Unexpected null byte after \"%s\"."
        [.bytes (cstr key.toStr)]
      return ⟨fields,addId,true⟩
    | .append name => do
      let fields ← append name v
      let r ← appendAll append fromProperties skipOdmField rest
        (addId && key ≠ .str idName.bytes)
      return { r with fields := fields ++ r.fields }

/-- What `php_phongo_zval_to_bson_internal` does after a loop that ran to its end. -/
def finishFields (L : Libbson) (returnId : Bool) (r : LoopEnd) : Encode T O Doc :=
  onOutput fun out =>
    let (fields,out) :=
      if r.addId then
        (r.fields ++ [(idName,.oid (L.oidInit out.generatedOids))],
          { out with generatedOids := out.generatedOids + 1 })
      else (r.fields,out)
    if returnId then
      (fields,{ out with bsonOut := some (fields.find? fun f => f.1 = idName).toList })
    else (fields,out)

def closeFields (L : Libbson) (loop : Loop T O) (flags : Flags) : Encode T O Doc := do
  let r ← loop flags.addId
  if r.aborted then return r.fields else finishFields L flags.returnId r

def throwUnsupportedType (number : ℤ) (name : String) : Encode T O Doc :=
  throwAt "Detected unsupported PHP type for field path \"%s\": %d (%s)"
    [.num number,.bytes (ascii name)]

def appendString (L : Libbson) (key : CString) (s : Bytes) : Encode T O Doc :=
  if L.utf8Validate s true then return [(key,.utf8 s)]
  else throwAt "Detected invalid UTF-8 for field path \"%s\": %s" [.bytes (cstr s)]

/-- The scan of `php_phongo_is_array_or_document`. -/
def keysAreIndices (n : ℕ) : List (Key × V) → Bool
  | [] => true
  | (.int i,_)::rest => i = Int64.ofNat n && keysAreIndices (n+1) rest
  | (.str _,_)::_ => false

/-- The array or document that `php_phongo_bson_append` opens for an array. -/
def appendCompound (key : CString) (isArray : Bool) (body : Encode T O Doc) : Encode T O Doc :=
  if isArray then appendArray key body else appendDocument key body

def compoundType (isArray : Bool) : ItemType := if isArray then .array else .document

mutual

/-- The `switch` of `php_phongo_bson_append`. -/
def appendPlain (L : Libbson) (key : CString) : Plain → Encode T O Doc
  | .null => return [(key,.null)]
  | .bool b => return [(key,.bool b)]
  | .long n => return intElement key n
  | .double bits => return [(key,.double bits)]
  | .string s => appendString L key s
  | .resource => throwUnsupportedType 9 "resource"
  | .immutable els =>
    let isArray := keysAreIndices 0 els
    nested (compoundType isArray)
      (appendCompound key isArray (closeFields L (appendPlains L false els) .none))

/-- The loop of `php_phongo_zval_to_bson_internal`. -/
def appendPlains (L : Libbson) (skipOdmField : Bool) : List (Key × Plain) → Loop T O
  | [] => emptyLoop
  | (key,p)::rest => fun addId =>
    match inspectKey false skipOdmField key with
    | .skip => appendPlains L skipOdmField rest addId
    | .abort => do
      let fields ← throw "BSON keys cannot contain null bytes. Unexpected null byte after \"%s\"."
        [.bytes (cstr key.toStr)]
      return ⟨fields,addId,true⟩
    | .append name => do
      let fields ← element name (appendPlain L name p)
      let r ← appendPlains L skipOdmField rest (addId && key ≠ .str idName.bytes)
      return { r with fields := fields ++ r.fields }

end

section Objects
variable (h : PhpHeap T O R) (L : Libbson) (U : Userland)

/-- The values `bsonSerialize()` may return. -/
def isArrayOrStdClass : HeapValue T O → Bool
  | .plain (.immutable _) | .array _ => true
  | .plain _ => false
  | .object o =>
    match h.objects o with
    | .user ce _ _ => ce.isStdClass
    | .bson _ _ | .cursorId _ _ => false

/-- `php_phongo_is_array_or_document` returns `IS_ARRAY`. -/
def isBsonArray : HeapValue T O → Bool
  | .plain (.immutable els) => keysAreIndices 0 els
  | .array t => keysAreIndices 0 (h.elements t)
  | .plain _ | .object _ => false

def typeName : Plain → Bytes
  | .null => ascii "null"
  | .bool _ => ascii "bool"
  | .long _ => ascii "int"
  | .double _ => ascii "float"
  | .string _ => ascii "string"
  | .resource => ascii "resource"
  | .immutable _ => ascii "array"

/-- `PHONGO_ZVAL_CLASS_OR_TYPE_NAME` -/
def classOrTypeName : HeapValue T O → Bytes
  | .plain p => typeName p
  | .array _ => ascii "array"
  | .object o =>
    match h.objects o with
    | .bson obj _ => obj.className
    | .cursorId _ _ => ascii "MongoDB\\Driver\\CursorId"
    | .user ce _ _ => ce.name

/-- `zend_call_method` of `bsonSerialize()`, which the engine skips while an exception is
pending; nothing comes of a call that threw. -/
def callBsonSerialize : Returned T O → Encode T O (Option (HeapValue T O))
  | .threw ids => onOutput fun out =>
    if out.exceptions = [] then (none,{ out with exceptions := thrownBy ids }) else (none,out)
  | .value v => onOutput fun out => (if out.exceptions = [] then some v else none,out)

/-- `HASH_OF` of an object of a built-in class: NULL for a Javascript object whose scope cannot
be decoded. -/
def hashOfBson (obj : BsonObject) (table : T) : Encode T O (Option T) :=
  match obj with
  | .javascript _ (some scope) => onOutput fun out =>
    let r := bsonToZvalEx L U (.read scope true) BsonState.init out.exceptions
    (if r.ok then some table else none,{ out with
      exceptions := r.exceptions
      scopePaths := out.scopePaths ++
        renderedEx L U (.read scope true) BsonState.init out.exceptions })
  | _ => return some table

/-- The message of an unexpected return type of `bsonSerialize()`. -/
def throwExpectedArray (ce : ClassEntry) (returned : HeapValue T O) : Encode T O Doc :=
  throw "Expected %s::%s() to return an array or stdClass, %s given"
    [.bytes ce.name,.bytes (ascii "bsonSerialize"),.bytes (classOrTypeName h returned)]

def throwRootElement (name : Bytes) : Encode T O Doc :=
  throw "%s instance %s cannot be serialized as a root element" [.bytes typeClassName,.bytes name]

/-- What a call of `bsonSerialize()` returned goes to `encode`, if it is an array or stdClass. -/
def serialized (ce : ClassEntry) (returned : Returned T O)
    (encode : HeapValue T O → Encode T O Doc) : Encode T O Doc := do
  match ← callBsonSerialize returned with
  | none => return []
  | some v => if isArrayOrStdClass h v then encode v else throwExpectedArray h ce v

/-- The class name of a Persistable object comes before its fields. -/
def withOdm (ce : ClassEntry) (body : Encode T O Doc) : Encode T O Doc := do
  let fields ← body
  return if ce.isPersistable then odmField ce::fields else fields

variable (append : CString → HeapValue T O → Encode T O Doc)

/-- The loop of `php_phongo_zval_to_bson_internal`, which follows references. -/
def appendSlots (fromProperties skipOdmField : Bool) (t : T) : Loop T O :=
  appendAll (fun key slot => append key (deref h slot)) fromProperties skipOdmField
    (h.elements t)

/-- The loop over `HASH_OF(&obj_data)`. -/
def appendTable (skipOdmField : Bool) : HeapValue T O → Loop T O
  | .plain (.immutable els) => appendPlains L skipOdmField els
  | .plain _ => emptyLoop
  | .array t => appendSlots h append false skipOdmField t
  | .object o =>
    match h.objects o with
    | .user _ table _ => appendSlots h append false skipOdmField table
    | .bson _ _ | .cursorId _ _ => emptyLoop

/-- `php_phongo_zval_to_bson_internal` -/
def internal (flags : Flags) : HeapValue T O → Encode T O Doc
  | .plain (.immutable els) => closeFields L (appendPlains L false els) flags
  | .plain _ => return []
  | .array t => closeFields L (appendSlots h append false false t) flags
  | .object o =>
    match h.objects o with
    | .bson obj _ => throwRootElement obj.className
    | .cursorId id _ => closeFields L (fun addId => do
        let fields ← element (CString.lit "id") (return intElement (CString.lit "id") id)
        return ⟨fields,addId,false⟩) flags
    | .user ce table returned =>
      if ce.isSerializable then
        serialized h ce returned fun v =>
          withOdm ce (closeFields L (appendTable h L append ce.isPersistable v) flags)
      else if ce.isType then throwRootElement ce.name
      else closeFields L (appendSlots h append true false table) flags

/-- `php_phongo_bson_append_object` on an object of a userland class. -/
def appendObject (key : CString) (ce : ClassEntry) (table : T) (returned : Returned T O) :
    Encode T O Doc :=
  if ce.isType then
    if ce.isSerializable then
      serialized h ce returned fun v =>
        if ce.isPersistable || ! isBsonArray h v then
          appendDocument key (withOdm ce (internal h L append .none v))
        else appendArray key (internal h L append .none v)
    else throw "Unexpected %s instance: %s" [.bytes typeClassName,.bytes ce.name]
  else appendDocument key (closeFields L (appendSlots h append true false table) .none)

variable [DecidableEq T] (protects : Bool)

/-- The `switch` of `php_phongo_bson_append`; `append` is that function. -/
def appendValue (key : CString) : HeapValue T O → Encode T O Doc
  | .plain p => appendPlain L key p
  | .array t =>
    let isArray := keysAreIndices 0 (h.elements t)
    guarded protects (.array t) (some t) (compoundType isArray)
      (appendCompound key isArray (closeFields L (appendSlots h append false false t) .none))
  | .object o =>
    match h.objects o with
    | .bson obj table => do
      let ht ← hashOfBson L U obj table
      guarded protects (.object o) ht .document (return [(key,bsonObjectValue L obj)])
    | .cursorId id table =>
      guarded protects (.object o) (some table) .document (return [(key,.int64 id)])
    | .user ce table returned =>
      guarded protects (.object o) (some table) .document
        (appendObject h L append key ce table returned)

end Objects

/-- `php_phongo_bson_append`, which calls itself through the tables it descends into; the model
gives up at a depth. -/
def append [DecidableEq T] (h : PhpHeap T O R) (L : Libbson) (U : Userland) (protects : Bool) :
    ℕ → CString → HeapValue T O → Encode T O Doc
  | 0,_,_ => runOut
  | n+1,key,v => element key (appendValue h L U (append h L U protects n) protects key v)

/-- `php_phongo_zval_to_bson` begins with a field path of its own. -/
def start (recursive : List T) (eg : Pending) : GraphEncoder T O where
  output := ⟨eg,0,none,[]⟩
  fieldPath := FieldPath.alloc
  recursive := recursive
  around := []
  met := []
  rendered := []
  ranOut := false

/-- `php_phongo_zval_to_bson` -/
def zvalToBson [DecidableEq T] (h : PhpHeap T O R) (L : Libbson) (U : Userland) (protects : Bool)
    (depth : ℕ) (data : HeapValue T O) (flags : Flags) (recursive : List T) (eg : Pending) :
    Doc × GraphEncoder T O :=
  internal h L (append h L U protects depth) flags data (start recursive eg)

end Graph
end Phongo
