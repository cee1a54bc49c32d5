import Phongo.Lib.Base64
import Phongo.Value.Text

/-! `jsonSerialize`: the arrays that `json_encode()` makes Extended JSON of. -/
namespace Phongo
open OrderedTable

section
variable (T : TextLibbson) (U : Userland)

/-- What the "$scope" of Javascript is, under the default typemap. -/
def jsonScope (scope : Doc) (eg : Pending) : Option Zval × Pending :=
  let r := bsonToZvalEx T.libbson U (.read scope true) BsonState.init eg
  (if r.ok then some r.state.zchild else none,r.exceptions)

/-- The `jsonSerialize` methods. A scope that cannot be decoded is left out, and throws. -/
def BsonObject.jsonSerialize (obj : BsonObject) (eg : Pending) : Props × Pending :=
  match obj with
  | .objectId oid => ([property "$oid" (.string (oid.bytes.take 24))],eg)
  | .utcDateTime milliseconds =>
    ([property "$date" (.array none
      [property "$numberLong" (.string (longToStr milliseconds))])],eg)
  | .binary data type =>
    ([property "$binary" (.string (Base64.encode data)),
      property "$type" (.string (hexPair type))],eg)
  | .decimal128 high low =>
    ([property "$numberDecimal" (.string (T.decimal128ToString (high,low)).bytes)],eg)
  | .int64 integer => ([property "$numberLong" (.string (longToStr integer))],eg)
  | .regex pattern flags =>
    ([property "$regex" (.string pattern.bytes),property "$options" (.string flags.bytes)],eg)
  | .javascript code none => ([property "$code" (.string code)],eg)
  | .javascript code (some scope) =>
    let r := jsonScope T U scope eg
    (property "$code" (.string code)::(r.1.map (property "$scope")).toList,r.2)
  | .timestamp t i =>
    ([property "$timestamp" (.array none
      [property "t" (.long (Int64.ofNat t.toNat)),
        property "i" (.long (Int64.ofNat i.toNat))])],eg)
  | .maxKey => ([property "$maxKey" (.long 1)],eg)
  | .minKey => ([property "$minKey" (.long 1)],eg)
  | .dbPointer ref id =>
    ([property "$dbPointer" (.array none [property "$ref" (.string ref),
      property "$id" (.array none [property "$oid" (.string id.bytes)])])],eg)
  | .symbol s => ([property "$symbol" (.string s)],eg)
  | .undefined => ([property "$undefined" (.bool true)],eg)

/-- The same object, but for numbers with the same digits, and for scopes that are decoded to the
same value. -/
def SameJson : BsonObject → BsonObject → Prop
  | .decimal128 high low, .decimal128 high' low' =>
    T.decimal128ToString (high,low) = T.decimal128ToString (high',low')
  | .javascript code (some scope), .javascript code' (some scope') =>
    code = code' ∧ (jsonScope T U scope []).1 = (jsonScope T U scope' []).1
  | obj, obj' => obj = obj'

/-- The identifier fits `PHONGO_OID_LEN`, as that of every ObjectId does. -/
def BsonObject.FitsOid : BsonObject → Prop
  | .objectId oid => oid.bytes.length ≤ 24
  | _ => True

end

def BsonObject.jsonKey : BsonObject → String
  | .objectId _ => "$oid"
  | .utcDateTime _ => "$date"
  | .binary _ _ => "$binary"
  | .decimal128 _ _ => "$numberDecimal"
  | .int64 _ => "$numberLong"
  | .regex _ _ => "$regex"
  | .javascript _ _ => "$code"
  | .timestamp _ _ => "$timestamp"
  | .maxKey => "$maxKey"
  | .minKey => "$minKey"
  | .dbPointer _ _ => "$dbPointer"
  | .symbol _ => "$symbol"
  | .undefined => "$undefined"

def jsonKeys : List Bytes :=
  ["$oid","$date","$binary","$numberDecimal","$numberLong","$regex","$code","$timestamp",
    "$maxKey","$minKey","$dbPointer","$symbol","$undefined"].map ascii

section
variable {T : TextLibbson} {U : Userland}

theorem jsonSerialize_head (obj : BsonObject) (eg : Pending) :
    ∃ z rest, (obj.jsonSerialize T U eg).1 = (Key.str (ascii obj.jsonKey),z)::rest := by
  cases obj with
  | javascript code scope => cases scope <;> exact ⟨_,_,rfl⟩
  | _ => exact ⟨_,_,rfl⟩

/-- Arrays that are the same come from objects of one class. -/
theorem class_of_jsonSerialize {obj obj' : BsonObject} {eg eg' : Pending}
    (h : (obj.jsonSerialize T U eg).1 = (obj'.jsonSerialize T U eg').1) :
    obj.ctorIdx = obj'.ctorIdx := by
  have hindex : ∀ obj : BsonObject, jsonKeys.idxOf (ascii obj.jsonKey) = obj.ctorIdx := by
    intro obj
    cases obj <;> simp only [BsonObject.jsonKey,BsonObject.ctorIdx] <;> decide +kernel
  obtain ⟨z,rest,hobj⟩ := jsonSerialize_head (T:=T) (U:=U) obj eg
  obtain ⟨z',rest',hobj'⟩ := jsonSerialize_head (T:=T) (U:=U) obj' eg'
  rw [hobj,hobj'] at h
  have hkey : Key.str (ascii obj.jsonKey) = .str (ascii obj'.jsonKey) :=
    congrArg Prod.fst (List.cons.inj h).1
  rw [← hindex obj,← hindex obj',Key.str.inj hkey]

theorem jsonScope_some {scope : Doc} (h : (jsonScope T U scope []).2 = []) :
    ∃ z, (jsonScope T U scope []).1 = some z := by
  cases ha : acceptsAll T.libbson scope with
  | false => exact absurd h (bsonToZvalRoot_rejects ha true BsonState.init []).2.1
  | true =>
    obtain ⟨hok,-⟩ := bsonToZvalEx_fresh (U:=U) ha Typemap.default []
    exact ⟨_,if_pos hok⟩

theorem hexPair_injective {b b' : UInt8} (h : hexPair b = hexPair b') : b = b' := by
  have hspec := (hexPair_spec b).2 []
  have hspec' := (hexPair_spec b').2 []
  rw [h,hspec'] at hspec
  exact ((List.cons.inj hspec).1).symm

theorem ofNat_toNat_injective {n n' : UInt32} (h : Int64.ofNat n.toNat = Int64.ofNat n'.toNat) :
    n = n' := by
  have hint := congrArg Int64.toInt h
  have hn := n.toNat_lt
  have hn' := n'.toNat_lt
  rw [Int64.toInt_ofNat_of_lt (by omega),Int64.toInt_ofNat_of_lt (by omega)] at hint
  exact UInt32.toNat_inj.mp (Int.ofNat_inj.mp hint)

theorem class_of_sameJson {obj obj' : BsonObject} (h : SameJson T U obj obj') :
    obj.ctorIdx = obj'.ctorIdx := by
  unfold SameJson at h
  split at h
  · rfl
  · rfl
  · exact congrArg _ h

/-- Code with a scope has one key more than code without. -/
theorem jsonSerialize_javascript_eq_iff {code code' : Bytes} {scope scope' : Option Doc}
    (h : ((BsonObject.javascript code scope).jsonSerialize T U []).2 = [])
    (h' : ((BsonObject.javascript code' scope').jsonSerialize T U []).2 = []) :
    ((BsonObject.javascript code scope).jsonSerialize T U []).1 =
        ((BsonObject.javascript code' scope').jsonSerialize T U []).1 ↔
      SameJson T U (.javascript code scope) (.javascript code' scope') := by
  cases scope with
  | none =>
    cases scope' with
    | none => simp [BsonObject.jsonSerialize,property,SameJson]
    | some scope' =>
      obtain ⟨z',hz'⟩ := jsonScope_some h'
      simp [BsonObject.jsonSerialize,SameJson,hz']
  | some scope =>
    obtain ⟨z,hz⟩ := jsonScope_some h
    cases scope' with
    | none => simp [BsonObject.jsonSerialize,SameJson,hz]
    | some scope' =>
      obtain ⟨z',hz'⟩ := jsonScope_some h'
      simp [BsonObject.jsonSerialize,property,SameJson,hz,hz']

/-- What JSON is made of tells the object, as far as numbers have digits of their own and scopes
are decoded to values of their own. -/
theorem jsonSerialize_eq_iff (T : TextLibbson) (U : Userland) (obj obj' : BsonObject)
    (hobj : obj.FitsOid) (hobj' : obj'.FitsOid) (h : (obj.jsonSerialize T U []).2 = [])
    (h' : (obj'.jsonSerialize T U []).2 = []) :
    (obj.jsonSerialize T U []).1 = (obj'.jsonSerialize T U []).1 ↔ SameJson T U obj obj' := by
  by_cases hclass : obj.ctorIdx = obj'.ctorIdx
  · cases obj with
    | objectId oid =>
      cases obj' with
      | objectId oid' =>
        have htake : oid.bytes.take 24 = oid.bytes := List.take_of_length_le hobj
        have htake' : oid'.bytes.take 24 = oid'.bytes := List.take_of_length_le hobj'
        simp [BsonObject.jsonSerialize,property,SameJson,htake,htake',CString.ext_iff]
      | _ => cases hclass
    | utcDateTime milliseconds =>
      cases obj' with
      | utcDateTime => simp [BsonObject.jsonSerialize,property,SameJson,longToStr_injective.eq_iff]
      | _ => cases hclass
    | binary data type =>
      cases obj' with
      | binary data' type' =>
        have htype : hexPair type = hexPair type' ↔ type = type' :=
          ⟨hexPair_injective,congrArg hexPair⟩
        simp [BsonObject.jsonSerialize,property,SameJson,Base64.encode_injective.eq_iff,htype]
      | _ => cases hclass
    | decimal128 high low =>
      cases obj' with
      | decimal128 => simp [BsonObject.jsonSerialize,property,SameJson,CString.ext_iff]
      | _ => cases hclass
    | int64 integer =>
      cases obj' with
      | int64 => simp [BsonObject.jsonSerialize,property,SameJson,longToStr_injective.eq_iff]
      | _ => cases hclass
    | regex pattern flags =>
      cases obj' with
      | regex => simp [BsonObject.jsonSerialize,property,SameJson,CString.ext_iff]
      | _ => cases hclass
    | javascript code scope =>
      cases obj' with
      | javascript code' scope' => exact jsonSerialize_javascript_eq_iff h h'
      | _ => cases hclass
    | timestamp t i =>
      cases obj' with
      | timestamp t' i' =>
        have hlong : ∀ n n' : UInt32, Int64.ofNat n.toNat = Int64.ofNat n'.toNat ↔ n = n' :=
          fun n n' => ⟨ofNat_toNat_injective,fun heq => by rw [heq]⟩
        simp [BsonObject.jsonSerialize,property,SameJson,hlong]
      | _ => cases hclass
    | maxKey =>
      cases obj' with
      | maxKey => simp [SameJson]
      | _ => cases hclass
    | minKey =>
      cases obj' with
      | minKey => simp [SameJson]
      | _ => cases hclass
    | dbPointer ref id =>
      cases obj' with
      | dbPointer => simp [BsonObject.jsonSerialize,property,SameJson,CString.ext_iff]
      | _ => cases hclass
    | symbol s =>
      cases obj' with
      | symbol => simp [BsonObject.jsonSerialize,property,SameJson]
      | _ => cases hclass
    | undefined =>
      cases obj' with
      | undefined => simp [SameJson]
      | _ => cases hclass
  · exact iff_of_false (fun heq => hclass (class_of_jsonSerialize heq)) fun hsame =>
      hclass (class_of_sameJson hsame)

/-- Scopes with a number in 32 and in 64 bits. -/
theorem jsonSerialize_eq_iff_width :
    let code := fun n : BsonValue =>
      BsonObject.javascript (ascii "f") (some [(CString.lit "x",n)])
    ((code (.int32 5)).jsonSerialize .hexadecimal (.keeping .person) []).1 =
      ((code (.int64 5)).jsonSerialize .hexadecimal (.keeping .person) []).1 :=
  (jsonSerialize_eq_iff .hexadecimal (.keeping .person)
    (.javascript (ascii "f") (some [(CString.lit "x",.int32 5)]))
    (.javascript (ascii "f") (some [(CString.lit "x",.int64 5)])) trivial trivial rfl rfl).mpr
    ⟨rfl,rfl⟩

end

end Phongo
