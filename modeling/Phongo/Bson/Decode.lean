import Mathlib.Tactic.Common
import Phongo.Typemap

/-! BSON to PHP: the visitors of `bson.c` and `php_phongo_bson_to_zval_ex`.
The field path is shared by all levels of one decoding, the typemap is copied by each. -/
namespace Phongo

/-- `php_phongo_bson_state`; its field path is NULL whenever no decoding runs. -/
structure BsonState where
  zchild : Zval
  map : Typemap
  odm : Option ClassEntry
  isVisitingArray : Bool

/-- `PHONGO_BSON_INIT_STATE` -/
def BsonState.init : BsonState := ⟨.undef [],Typemap.default,none,false⟩

/-- What all levels of one decoding share. The trace records, for each visitor entered,
the open path it found and its key. -/
structure Decoder where
  fieldPath : FieldPath
  exceptions : Pending
  trace : List (List CString × CString)

/-- How `bson_iter_visit_all` ends: all elements visited, a visitor returned true, or
`err_off` set at the n-th element. -/
inductive Iteration
  | finished
  | stopped
  | corrupt (n : ℕ)
  deriving DecidableEq

structure Visited where
  result : Iteration
  state : BsonState
  decoder : Decoder

abbrev Visit := BsonState → Decoder → Visited

namespace Decoder

def writeItem (dec : Decoder) (key : CString) : Decoder :=
  { dec with fieldPath := dec.fieldPath.writeItemAtCurrentLevel key }

def push (dec : Decoder) (key : CString) (type : ItemType) : Decoder :=
  { dec with fieldPath := dec.fieldPath.push key type }

def pop (dec : Decoder) : Decoder := { dec with fieldPath := dec.fieldPath.pop }

def enterVisitor (dec : Decoder) (key : CString) : Decoder :=
  { dec with trace := dec.trace ++ [(dec.fieldPath.opened,key)] }

def throw (dec : Decoder) (domain : ErrorDomain) (format : String) (args : List Arg) :
    Decoder :=
  { dec with exceptions := throwException domain format args dec.exceptions }

end Decoder

/-- `object_init_ex(ce)` and its `bsonUnserialize(data)`. A parsed type that is CLASS names a class;
only one that was left uninitialised may not, and then `object_init_ex` crashes, for which NULL
stands here. -/
def Userland.unserializeAs (U : Userland) (ce : Option ClassEntry) (data : Zval)
    (eg : Pending) : Zval × Pending :=
  match ce with
  | some ce => U.unserialize ce data eg
  | none => (.null,eg)

/-- `add_next_index_zval` or `ADD_ASSOC_ZVAL`. -/
def BsonState.add (state : BsonState) (key : CString) (z : Zval) : BsonState :=
  { state with
    zchild := if state.isVisitingArray then state.zchild.addNextIndex z
      else state.zchild.addAssoc key z }

section Scalars

/-- The common body of the visitors for values without children. -/
def visitScalar (key : CString) (z : Zval) : Visit := fun state dec =>
  ⟨.finished,state.add key z,dec.writeItem key⟩

def visitDouble (key : CString) (bits : UInt64) : Visit := visitScalar key (.double bits)
def visitUtf8 (key : CString) (s : Bytes) : Visit := visitScalar key (.string s)
def visitUndefined (key : CString) : Visit := visitScalar key (.bson .undefined)
def visitOid (L : Libbson) (key : CString) (o : Oid) : Visit :=
  visitScalar key (.bson (.objectId (L.oidToString o)))
def visitBool (key : CString) (b : Bool) : Visit := visitScalar key (.bool b)
def visitDateTime (key : CString) (ms : Int64) : Visit :=
  visitScalar key (.bson (.utcDateTime ms))
def visitDecimal128 (key : CString) (high low : UInt64) : Visit :=
  visitScalar key (.bson (.decimal128 high low))
def visitNull (key : CString) : Visit := visitScalar key .null
def visitRegex (key : CString) (pattern options : CString) : Visit :=
  visitScalar key (.bson (.regex pattern options))
def visitSymbol (key : CString) (s : Bytes) : Visit := visitScalar key (.bson (.symbol s))
def visitDbpointer (L : Libbson) (key : CString) (ns : Bytes) (o : Oid) : Visit :=
  visitScalar key (.bson (.dbPointer ns (L.oidToString o)))
def visitCode (key : CString) (code : Bytes) : Visit :=
  visitScalar key (.bson (.javascript code none))
def visitInt32 (key : CString) (n : Int32) : Visit := visitScalar key (.long n.toInt64)
def visitTimestamp (key : CString) (t i : UInt32) : Visit :=
  visitScalar key (.bson (.timestamp t i))
def visitMaxkey (key : CString) : Visit := visitScalar key (.bson .maxKey)
def visitMinkey (key : CString) : Visit := visitScalar key (.bson .minKey)

/-- This visitor alone writes the path before it adds the value. -/
def visitInt64 (key : CString) (n : Int64) : Visit := fun state dec =>
  let dec := dec.writeItem key
  ⟨.finished,state.add key (.long n),dec⟩

/-- `PHONGO_ODM_FIELD_NAME` -/
def odmFieldName : CString := CString.lit "__pclass"

/-- The class a `__pclass` value names, when it can be instantiated and is Persistable. -/
def Userland.odmClass (U : Userland) (name : Bytes) : Option ClassEntry :=
  (U.fetchClass name).filter fun ce => ce.instantiatable && ce.isPersistable

/-- A class that is found has been loaded without an exception. -/
theorem Userland.autoload_of_odmClass {U : Userland} {name : Bytes} {ce : ClassEntry}
    (h : U.odmClass name = some ce) (eg : Pending) : U.autoload name eg = eg := by
  unfold odmClass fetchClass at h
  unfold Userland.autoload
  cases hl : U.lookupClass name with
  | ok found => rfl
  | error thrown => simp [hl,Except.toOption] at h

def visitBinary (U : Userland) (key : CString) (subtype : UInt8) (data : Bytes) : Visit :=
  fun state dec =>
  if subtype = 0x80 ∧ key = odmFieldName then
    let dec := { dec with exceptions := U.autoload data dec.exceptions }
    let state := match U.odmClass data with
      | some ce => { state with odm := some ce }
      | none => state
    visitScalar key (.bson (.binary data subtype)) state dec
  else visitScalar key (.bson (.binary data subtype)) state dec

end Scalars

def visitUnsupportedType (key : CString) (typeCode : UInt8) (dec : Decoder) : Decoder :=
  let dec := dec.writeItem key
  dec.throw .unexpectedValue
    "Detected unknown BSON type 0x%02hhx for field path \"%s\". Are you using the latest driver?"
    [.num typeCode.toNat,.bsonPath dec.fieldPath.asString]

/-- The `switch` on the type of a document or of the root. -/
def finishDocument (U : Userland) (type : TypemapType) (ce : Option ClassEntry) (zchild : Zval)
    (eg : Pending) : Zval × Pending :=
  match type with
  | .nativeArray => (zchild,eg)
  | .class => U.unserializeAs ce zchild eg
  | .nativeObject | .none => (zchild.convertToObject,eg)

/-- The `switch` on the type of an array. -/
def finishArray (U : Userland) (type : TypemapType) (ce : Option ClassEntry) (zchild : Zval)
    (eg : Pending) : Zval × Pending :=
  match type with
  | .class => U.unserializeAs ce zchild eg
  | .nativeObject => (zchild.convertToObject,eg)
  | .nativeArray | .none => (zchild,eg)

def odmType (odm : Option ClassEntry) (type : TypemapType) : TypemapType :=
  if odm.isSome ∧ type = .none then .class else type

/-- `php_phongo_bson_visit_document`; `children` is `bson_iter_visit_all` on the document. -/
def visitDocument (U : Userland) (key : CString) (children : Visit) : Visit :=
  fun parent dec =>
  let child := children ⟨.array none [],parent.map,none,false⟩ (dec.push key .document)
  if child.result = .finished then
    let t := handleFieldPathEntryForCompoundType child.state.map child.decoder.fieldPath
      (child.state.map.documentType,child.state.map.document)
    let odm := child.state.odm
    let z := finishDocument U (odmType odm t.1) (odm.or t.2) child.state.zchild
      child.decoder.exceptions
    ⟨.finished,parent.add key z.1,{ child.decoder with exceptions := z.2 }.pop⟩
  else ⟨.stopped,parent,child.decoder⟩

/-- `php_phongo_bson_visit_array` -/
def visitArray (U : Userland) (key : CString) (children : Visit) : Visit :=
  fun parent dec =>
  let child := children ⟨.array none [],parent.map,none,true⟩ (dec.push key .array)
  if child.result = .finished then
    let t := handleFieldPathEntryForCompoundType child.state.map child.decoder.fieldPath
      (child.state.map.arrayType,child.state.map.array)
    let z := finishArray U t.1 t.2 child.state.zchild child.decoder.exceptions
    ⟨.finished,parent.add key z.1,{ child.decoder with exceptions := z.2 }.pop⟩
  else ⟨.stopped,parent,child.decoder⟩

/-- The outcome of `php_phongo_bson_to_zval_ex`: its return value, the caller's state and
the pending exceptions. -/
structure Decoded where
  ok : Bool
  state : BsonState
  exceptions : Pending

/-- `php_phongo_bson_to_zval_ex` once the iterator stands on the document; `children` is
`bson_iter_visit_all` on it and `offset` gives `err_off`. -/
def bsonToZvalRoot (U : Userland) (offset : ℕ → ℕ) (children : Visit) (exhausted : Bool)
    (state : BsonState) (eg : Pending) : Decoded × List (List CString × CString) :=
  let root := children { state with zchild := .array none [] } ⟨FieldPath.alloc,eg,[]⟩
  let dec := root.decoder
  if root.result = .finished then
    let odm := root.state.odm
    -- the promoted type stays in the caller's typemap
    let map := { root.state.map with rootType := odmType odm root.state.map.rootType }
    let z := finishDocument U map.rootType (odm.or map.root) root.state.zchild dec.exceptions
    let state := { root.state with map := map, zchild := z.1 }
    if exhausted then (⟨true,state,z.2⟩,dec.trace)
    else
      (⟨false,state,throwException .unexpectedValue
        "Reading document did not exhaust input buffer" [] z.2⟩,dec.trace)
  else
    let errOff := match root.result with | .corrupt n => offset n | _ => 0
    let dec :=
      if dec.exceptions = [] then
        dec.throw .unexpectedValue
          "Detected corrupt BSON data for field path '%s' at offset %d"
          [.bsonPath dec.fieldPath.asString,.num errOff]
      else dec
    (⟨false,root.state,dec.exceptions⟩,dec.trace)

/-- `php_phongo_bson_visit_codewscope`; the scope is decoded with a state of its own and the
result thrown away. -/
def visitCodewscope (U : Userland) (offset : ℕ → ℕ) (key : CString) (code : Bytes)
    (scope : Doc) (children : Visit) : Visit := fun state dec =>
  let (valid,_) := bsonToZvalRoot U offset children true BsonState.init dec.exceptions
  let dec := { dec with exceptions := valid.exceptions }
  if valid.ok then visitScalar key (.bson (.javascript code (some scope))) state dec
  else ⟨.stopped,state,dec⟩

mutual

def visitField (L : Libbson) (U : Userland) (n : ℕ) (key : CString) : BsonValue → Visit
  | .double bits => visitDouble key bits
  | .utf8 s => visitUtf8 key s
  | .document d => visitDocument U key (visitAll L U 0 d)
  | .array d => visitArray U key (visitAll L U 0 d)
  | .binary subtype data => visitBinary U key subtype data
  | .undefined => visitUndefined key
  | .oid o => visitOid L key o
  | .bool b => visitBool key b
  | .dateTime ms => visitDateTime key ms
  | .null => visitNull key
  | .regex pattern options => visitRegex key pattern options
  | .dbPointer ns o => visitDbpointer L key ns o
  | .code c => visitCode key c
  | .symbol s => visitSymbol key s
  | .codeWithScope c scope =>
    visitCodewscope U (L.offset scope) key c scope (visitAll L U 0 scope)
  | .int32 i => visitInt32 key i
  | .timestamp t i => visitTimestamp key t i
  | .int64 i => visitInt64 key i
  | .decimal128 high low => visitDecimal128 key high low
  | .maxKey => visitMaxkey key
  | .minKey => visitMinkey key
  | .unsupported typeCode => fun state dec =>
    ⟨.corrupt n,state,visitUnsupportedType key typeCode dec⟩
  | .corrupt => fun state dec => ⟨.corrupt n,state,dec⟩

/-- `bson_iter_visit_all` from the n-th element on. -/
def visitAll (L : Libbson) (U : Userland) (n : ℕ) : List (CString × BsonValue) → Visit
  | [] => fun state dec => ⟨.finished,state,dec⟩
  | (key,value)::rest => fun state dec =>
    if L.keyValid key && L.textValid value then
      let r := visitField L U n key value state (dec.enterVisitor key)
      if r.result = .finished then visitAll L U (n+1) rest r.state r.decoder else r
    else ⟨.corrupt n,state,dec⟩

end

/-- `php_phongo_bson_to_zval_ex` -/
def bsonToZvalEx (L : Libbson) (U : Userland) (input : BsonInput) (state : BsonState)
    (eg : Pending) : Decoded :=
  match input with
  | .unreadable =>
    ⟨false,state,throwException .unexpectedValue "Could not read document from BSON reader" [] eg⟩
  | .uniterable =>
    ⟨false,state,throwException .unexpectedValue "Could not initialize BSON iterator" [] eg⟩
  | .read d exhausted =>
    (bsonToZvalRoot U (L.offset d) (visitAll L U 0 d) exhausted state eg).1

end Phongo
