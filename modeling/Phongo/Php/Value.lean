import Mathlib.Tactic.Common
import Phongo.Lib.Table
import Phongo.Php.Key
import Phongo.Bson.Document
import Phongo.Exception

/-! PHP values as the encoder walks them and the decoder builds them.
A value is the finite unfolding of a PHP heap along the tables the encoder visits. A table
that can be met twice on one path carries its identity; a table referenced only here has none. -/
namespace Phongo
open OrderedTable

/-- How a class relates to the interfaces `Type`, `Serializable` and `Persistable`,
each of which extends the one before. -/
inductive BsonInterface
  | none | type | serializable | persistable
  deriving DecidableEq

/-- The parts of a `zend_class_entry` the driver tests. -/
structure ClassEntry where
  name : Bytes
  interface : BsonInterface
  implementsUnserializable : Bool
  /-- `stdClass` or a subclass of it -/
  isStdClass : Bool
  /-- neither an interface nor abstract -/
  instantiatable : Bool
  deriving DecidableEq

namespace ClassEntry

def isType (ce : ClassEntry) : Bool := ce.interface ≠ .none
def isSerializable (ce : ClassEntry) : Bool :=
  ce.interface = .serializable || ce.interface = .persistable
def isPersistable (ce : ClassEntry) : Bool := ce.interface = .persistable
def isUnserializable (ce : ClassEntry) : Bool :=
  ce.implementsUnserializable || ce.isPersistable

theorem isType_of_isSerializable {ce : ClassEntry} (h : ce.isSerializable = true) :
    ce.isType = true := by
  simp only [isSerializable,Bool.or_eq_true,decide_eq_true_eq] at h
  rcases h with h | h <;> simp [isType,h]

theorem isSerializable_of_isPersistable {ce : ClassEntry} (h : ce.isPersistable = true) :
    ce.isSerializable = true := by
  simp only [isPersistable,decide_eq_true_eq] at h
  simp [isSerializable,h]

/-- `zend_standard_class_def` -/
def stdClass : ClassEntry := ⟨ascii "stdClass",.none,false,true,true⟩

end ClassEntry

/-- The internal structs of the final `MongoDB\BSON` value classes. -/
inductive BsonObject
  | objectId (oid : CString)
  | utcDateTime (milliseconds : Int64)
  | binary (data : Bytes) (type : UInt8)
  | decimal128 (high low : UInt64)
  | int64 (integer : Int64)
  | regex (pattern flags : CString)
  | javascript (code : Bytes) (scope : Option Doc)
  | timestamp (timestamp increment : UInt32)
  | maxKey
  | minKey
  | dbPointer (ref : Bytes) (id : CString)
  | symbol (symbol : Bytes)
  | undefined

def BsonObject.className : BsonObject → Bytes
  | .objectId _ => ascii "MongoDB\\BSON\\ObjectId"
  | .utcDateTime _ => ascii "MongoDB\\BSON\\UTCDateTime"
  | .binary _ _ => ascii "MongoDB\\BSON\\Binary"
  | .decimal128 _ _ => ascii "MongoDB\\BSON\\Decimal128"
  | .int64 _ => ascii "MongoDB\\BSON\\Int64"
  | .regex _ _ => ascii "MongoDB\\BSON\\Regex"
  | .javascript _ _ => ascii "MongoDB\\BSON\\Javascript"
  | .timestamp _ _ => ascii "MongoDB\\BSON\\Timestamp"
  | .maxKey => ascii "MongoDB\\BSON\\MaxKey"
  | .minKey => ascii "MongoDB\\BSON\\MinKey"
  | .dbPointer _ _ => ascii "MongoDB\\BSON\\DBPointer"
  | .symbol _ => ascii "MongoDB\\BSON\\Symbol"
  | .undefined => ascii "MongoDB\\BSON\\Undefined"

inductive Zval
  /-- the result of a method call that threw -/
  | undef (thrown : List ℕ)
  | null
  | bool (b : Bool)
  | long (n : Int64)
  | double (bits : UInt64)
  | string (s : Bytes)
  | array (ht : Option ℕ) (elements : List (Key × Zval))
  | bson (obj : BsonObject)
  /-- `MongoDB\Driver\CursorId` -/
  | cursorId (id : Int64)
  /-- any other object, with what its `bsonSerialize()` yields when called here -/
  | object (ce : ClassEntry) (ht : Option ℕ) (properties : List (Key × Zval))
      (bsonSerialize : Zval)
  | reference (z : Zval)
  | resource

namespace Zval

/-- Stored under a `char*` key by the `add_assoc_*` functions. -/
def addAssoc (z : Zval) (key : CString) (v : Zval) : Zval :=
  match z with
  | .array ht els => .array ht (update els (symtable key.bytes) v)
  | z => z

/-- Stored by the `add_next_index_*` functions; the arrays they are used on hold
nothing else, so the next index is the number of elements. -/
def addNextIndex (z : Zval) (v : Zval) : Zval :=
  match z with
  | .array ht els => .array ht (els ++ [(.int (Int64.ofNat els.length),v)])
  | z => z

/-- `zend_symtable_to_proptable` -/
def toProptable (els : List (Key × Zval)) : List (Key × Zval) :=
  els.map fun e => (.str e.1.toStr,e.2)

def isUndef : Zval → Bool
  | .undef _ => true
  | _ => false

/-- `PHONGO_ZVAL_CLASS_OR_TYPE_NAME` -/
def classOrTypeName : Zval → Bytes
  | .undef _ => ascii "unknown"
  | .null => ascii "null"
  | .bool _ => ascii "bool"
  | .long _ => ascii "int"
  | .double _ => ascii "float"
  | .string _ => ascii "string"
  | .array _ _ => ascii "array"
  | .bson obj => obj.className
  | .cursorId _ => ascii "MongoDB\\Driver\\CursorId"
  | .object ce _ _ _ => ce.name
  | .reference _ => ascii "unknown"
  | .resource => ascii "resource"

def IsLeaf : Zval → Prop
  | .array _ _ | .object _ _ _ _ | .reference _ => False
  | _ => True

/-- Induction on values and tables together. -/
theorem induction {P : Zval → Prop} {Q : List (Key × Zval) → Prop} (leaf : ∀ z, z.IsLeaf → P z)
    (array : ∀ ht els, Q els → P (.array ht els))
    (object : ∀ ce ht properties returned, Q properties → P returned →
      P (.object ce ht properties returned))
    (reference : ∀ z, P z → P (.reference z)) (nil : Q [])
    (cons : ∀ k z els, P z → Q els → Q ((k,z)::els)) : (∀ z, P z) ∧ ∀ els, Q els := by
  have hP : ∀ z, P z := fun z => by
    induction z using Zval.rec (motive_2:=Q) (motive_3:=fun e => P e.2) with
    | array ht els ih => exact array ht els ih
    | object ce ht properties returned ihp ihr => exact object ce ht properties returned ihp ihr
    | reference z ih => exact reference z ih
    | nil => exact nil
    | cons e els ihe ih => exact cons e.1 e.2 els ihe ih
    | mk k z ih => exact ih
    | _ => exact leaf _ trivial
  refine ⟨hP,fun els => ?_⟩
  induction els with
  | nil => exact nil
  | cons e els ih => exact cons e.1 e.2 els (hP e.2) ih

def isArrayOrObject : Zval → Bool
  | .array _ _ => true
  | .bson _ => true
  | .cursorId _ => true
  | .object _ _ _ _ => true
  | _ => false

/-- `HASH_OF`; NULL for values without a table. -/
def hashOf : Zval → Option (List (Key × Zval))
  | .array _ els => some els
  | .object _ _ properties _ => some properties
  | _ => none

/-- `convert_to_object` -/
def convertToObject : Zval → Zval
  | .array _ els => .object ClassEntry.stdClass none (toProptable els) .null
  | z => z

end Zval

/-- The state of an object of a userland class. -/
structure Instance where
  properties : List (Key × Zval)
  bsonSerialize : Zval

def Instance.toZval (ce : ClassEntry) (i : Instance) : Zval :=
  .object ce none i.properties i.bsonSerialize

/-- Userland code as the driver meets it. -/
structure Userland where
  /-- `zend_fetch_class` with autoloading, silent: the class, or what the autoloader threw -/
  lookupClass : Bytes → Except (List ℕ) ClassEntry
  /-- `object_init_ex` -/
  objectInit : ClassEntry → Instance
  /-- the object after `bsonUnserialize(data)` and what the call threw -/
  bsonUnserialize : ClassEntry → Zval → Instance × List ℕ

def Userland.fetchClass (U : Userland) (name : Bytes) : Option ClassEntry :=
  (U.lookupClass name).toOption

theorem Userland.fetchClass_eq_some {U : Userland} {name : Bytes} {ce : ClassEntry} :
    U.fetchClass name = some ce ↔ U.lookupClass name = .ok ce := by
  unfold fetchClass
  cases U.lookupClass name <;> simp [Except.toOption]

/-- What `zend_fetch_class` leaves pending; the autoloader runs whatever was pending before. -/
def Userland.autoload (U : Userland) (name : Bytes) (eg : Pending) : Pending :=
  match U.lookupClass name with
  | .ok _ => eg
  | .error thrown => thrownBy thrown ++ eg

/-- `object_init_ex` followed by the call of `bsonUnserialize()`, which the engine skips
while an exception is pending. -/
def Userland.unserialize (U : Userland) (ce : ClassEntry) (data : Zval) (eg : Pending) :
    Zval × Pending :=
  if eg = [] then
    let r := U.bsonUnserialize ce data
    (r.1.toZval ce,thrownBy r.2)
  else ((U.objectInit ce).toZval ce,eg)

/-- One class, whose objects keep the elements they are given as their properties. -/
def Userland.keeping (ce : ClassEntry) : Userland where
  lookupClass name := if name = ce.name then .ok ce else .error []
  objectInit _ := ⟨[],.null⟩
  bsonUnserialize _ data :=
    match data with
    | .array _ els => (⟨Zval.toProptable els,.array none els⟩,[])
    | _ => (⟨[],.null⟩,[])

def ClassEntry.person : ClassEntry := ⟨ascii "Person",.persistable,false,false,true⟩

end Phongo
