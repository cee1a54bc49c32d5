import Mathlib.Tactic.Common
import Phongo.Bson.ArrayRoundTrip

/-! Decoding under the default typemap, encoding the value and decoding again.
Without a usable class the first decoding is a pure function of the document. Its values are
plain data of a shape that the second round trip keeps, but for strings that libbson takes up
to their first NUL. -/
namespace Phongo
open OrderedTable

mutual

/-- No usable `__pclass` in the value, at any depth, and none whose autoloader throws. -/
def NoPclass (U : Userland) : BsonValue → Prop
  | .document d | .array d | .codeWithScope _ d => NoPclassAll U d
  | _ => True

def NoPclassAll (U : Userland) : List (CString × BsonValue) → Prop
  | [] => True
  | (key,v)::rest => U.Ignores key v ∧ NoPclass U v ∧ NoPclassAll U rest

end

mutual

/-- The PHP value of a BSON value under the default typemap. -/
def phpValue (L : Libbson) : BsonValue → Zval
  | .document d => (ofFields false (phpFields L d)).convertToObject
  | .array d => ofFields true (phpFields L d)
  | .codeWithScope c scope => .bson (.javascript c (some scope))
  | v => leafValue L v

def phpFields (L : Libbson) : List (CString × BsonValue) → List (CString × Zval)
  | [] => []
  | (key,v)::rest => (key,phpValue L v)::phpFields L rest

end

section Decoding
variable {L : Libbson} {U : Userland}

theorem phpValue_leaf {v : BsonValue} (h : v.IsLeaf) : phpValue L v = leafValue L v := by
  cases v <;> first | rfl | exact h.elim

theorem pclassOf_eq_none {d : Doc} (h : NoPclassAll U d) : U.pclassOf d = none := by
  induction d with
  | nil => rfl
  | cons e d ih =>
    obtain ⟨key,v⟩ := e
    rw [Userland.pclassOf,ih h.2.2,h.1.unset]
    rfl

theorem materialise_noPclass (L : Libbson) (U : Userland) :
    (∀ v, NoPclass U v → ∀ path eg,
      materialise L U .default path eg v = (phpValue L v,eg)) ∧
    (∀ d, NoPclassAll U d → ∀ path eg,
      materialiseAll L U .default path eg d = (phpFields L d,eg)) := by
  refine BsonValue.induction ?leaf ?document ?array ?scope ?nil ?cons
  case leaf =>
    intro v hv _ path eg
    rw [materialise_leaf hv,phpValue_leaf hv]
  case document =>
    intro d ih h path eg
    rw [materialise,ih h,pclassOf_eq_none h]
    rfl
  case array =>
    intro d ih h path eg
    rw [materialise,ih h]
    rfl
  case scope =>
    intro c s ih h path eg
    rw [materialise,ih h,pclassOf_eq_none h]
    rfl
  case nil =>
    intro _ path eg
    rfl
  case cons =>
    intro key v rest ihv ihd h path eg
    simp only [materialiseAll,phpFields,ihv h.2.1,h.1.loads,ihd h.2.2]

/-- A root without a class is decoded as an embedded document is. -/
theorem materialiseRoot_noPclass {d : Doc} (h : NoPclassAll U d) (eg : Pending) :
    materialiseRoot L U .default eg d = (phpValue L (.document d),eg) := by
  rw [materialiseRoot,(materialise_noPclass L U).2 d h,pclassOf_eq_none h]
  rfl

/-- A document as a `stdClass` object: the last value of each key at the key's first place. -/
theorem phpValue_document (d : Doc) :
    phpValue L (.document d) = .object .stdClass none
      (updateAll [] ((phpFields L d).map fun e => (.str e.1.bytes,e.2))) .null := by
  have hstr : Function.Injective Key.str := fun _ _ h => Key.str.inj h
  have hs := map_updateAll symtable (id : Zval → Zval) symtable_injective []
    ((phpFields L d).map fun e => (e.1.bytes,e.2))
  have hk := map_updateAll Key.str (id : Zval → Zval) hstr []
    ((phpFields L d).map fun e => (e.1.bytes,e.2))
  simp only [id,List.map_nil,List.map_map,Function.comp_def] at hs hk
  rw [phpValue,ofFields_false,Zval.convertToObject,Zval.toProptable,← hs,← hk]
  simp [Function.comp_def]

theorem phpValue_array (d : Doc) :
    phpValue L (.array d) = .array none (indexedFrom 0 ((phpFields L d).map Prod.snd)) :=
  ofFields_true _

end Decoding

def DecodedObject (L : Libbson) (U : Userland) : BsonObject → Prop
  | .objectId oid => L.oidToString (L.oidInitFromString oid) = oid
  | .regex pattern _ => L.utf8Validate pattern.bytes true = true
  | .javascript code none => L.utf8Validate code true = true
  | .javascript code (some scope) =>
    L.utf8Validate code true = true ∧ acceptsAll L scope = true ∧ NoPclassAll U scope
  | .symbol s => L.utf8Validate s true = true
  | .dbPointer ref id => L.textValid (.dbPointer ref (L.oidInitFromString id)) = true ∧
    L.oidToString (L.oidInitFromString id) = id
  | .int64 _ => False
  | _ => True

/-- The properties of a decoded document: distinct valid names, none of them a usable class. -/
structure DecodedProperties (L : Libbson) (U : Userland) (properties : List (Key × Zval)) :
    Prop where
  nodup : (keys properties).Nodup
  name : ∀ e ∈ properties, ∃ name : CString, e.1 = .str name.bytes ∧ L.keyValid name = true ∧
    U.Ignores name (toBson L e.2)

mutual

/-- The values that decoding an accepted document without a class yields. -/
def IsDecoded (L : Libbson) (U : Userland) : Zval → Prop
  | .null | .bool _ | .long _ | .double _ => True
  | .string s => L.utf8Validate s true = true
  | .array ht els => ht = none ∧ keysAreIndices 0 els = true ∧ AreDecoded L U els
  | .bson obj => DecodedObject L U obj
  | .object ce ht properties returned => ce = .stdClass ∧ ht = none ∧
      returned = .null ∧ DecodedProperties L U properties ∧ AreDecoded L U properties
  | _ => False

def AreDecoded (L : Libbson) (U : Userland) : List (Key × Zval) → Prop
  | [] => True
  | (_,z)::rest => IsDecoded L U z ∧ AreDecoded L U rest

end

section Shape
variable {L : Libbson} {U : Userland}

theorem areDecoded_iff {els : List (Key × Zval)} :
    AreDecoded L U els ↔ ∀ e ∈ els, IsDecoded L U e.2 := by
  induction els with
  | nil => simp [AreDecoded]
  | cons e els ih =>
    obtain ⟨key,z⟩ := e
    simp [AreDecoded,ih]

theorem snd_mem_of_mem_indexedFrom {n : ℕ} {zs : List Zval} {e : Key × Zval}
    (h : e ∈ indexedFrom n zs) : e.2 ∈ zs := by
  induction zs generalizing n with
  | nil => simp [indexedFrom] at h
  | cons z zs ih =>
    rcases List.mem_cons.mp h with rfl | h
    · exact List.mem_cons_self
    · exact List.mem_cons_of_mem _ (ih h)

theorem ignores_intValue (key : CString) (n : Int64) : U.Ignores key (intValue n) := by
  refine ignores_of_ne_binary fun s b => ?_
  unfold intValue
  split <;> exact BsonValue.noConfusion

/-- Only a binary value names a class, and it is encoded as it was read. -/
theorem ignores_toBson {key : CString} {v : BsonValue} (h : U.Ignores key v) :
    U.Ignores key (toBson L (phpValue L v)) := by
  cases v with
  | binary subtype data => exact h
  | document d =>
    rw [phpValue_document]
    exact ignores_of_ne_binary fun _ _ => BsonValue.noConfusion
  | array d =>
    rw [phpValue_array,toBson,keysAreIndices_indexedFrom]
    exact ignores_of_ne_binary fun _ _ => BsonValue.noConfusion
  | int32 n => exact ignores_intValue key _
  | int64 n => exact ignores_intValue key n
  | _ => exact ignores_of_ne_binary fun _ _ => BsonValue.noConfusion

theorem phpValue_isDecoded (hL : L.Lawful) :
    (∀ v, NoPclass U v → L.textValid v = true → accepts L v = true →
      IsDecoded L U (phpValue L v)) ∧
    (∀ d, NoPclassAll U d → acceptsAll L d = true → ∀ e ∈ phpFields L d,
      IsDecoded L U e.2 ∧ L.keyValid e.1 = true ∧ U.Ignores e.1 (toBson L e.2)) := by
  have hoid : ∀ o, L.oidToString (L.oidInitFromString (L.oidToString o)) = L.oidToString o :=
    fun o => by rw [hL.oid]
  refine BsonValue.induction ?leaf ?document ?array ?scope ?nil ?cons
  case leaf =>
    intro v hv _ ht ha
    cases v with
    | document | array | codeWithScope => exact hv.elim
    | unsupported | corrupt => simp [accepts] at ha
    | oid o => exact hoid o
    | utf8 s => exact ht
    | code c => exact ht
    | symbol s => exact ht
    | dbPointer ns o =>
      refine ⟨?_,hoid o⟩
      rw [hL.oid]
      exact ht
    | regex pattern options =>
      simp only [Libbson.textValid,Bool.and_eq_true] at ht
      exact ht.1
    | _ => trivial
  case document =>
    intro d ih hn _ ha
    have hfields := ih hn ha
    rw [phpValue_document]
    have hmem : ∀ e ∈ updateAll [] ((phpFields L d).map fun e => (Key.str e.1.bytes,e.2)),
        ∃ f ∈ phpFields L d, (Key.str f.1.bytes,f.2) = e := fun e he => by
      rcases mem_of_mem_updateAll he with h | h
      · simp at h
      · simpa using h
    refine ⟨rfl,rfl,rfl,⟨nodup_updateAll _ _ (by simp),fun e he => ?_⟩,
      areDecoded_iff.mpr fun e he => ?_⟩
    · obtain ⟨f,hf,rfl⟩ := hmem e he
      exact ⟨f.1,rfl,(hfields f hf).2⟩
    · obtain ⟨f,hf,rfl⟩ := hmem e he
      exact (hfields f hf).1
  case array =>
    intro d ih hn _ ha
    have hfields := ih hn ha
    rw [phpValue_array]
    refine ⟨rfl,keysAreIndices_indexedFrom 0 _,areDecoded_iff.mpr fun e he => ?_⟩
    obtain ⟨f,hf,hfe⟩ := List.mem_map.mp (snd_mem_of_mem_indexedFrom he)
    rw [← hfe]
    exact (hfields f hf).1
  case scope =>
    intro c s _ hn ht ha
    exact ⟨ht,ha,hn⟩
  case nil =>
    intro _ _ e he
    simp [phpFields] at he
  case cons =>
    intro key v rest ihv ihd hn ha
    simp only [acceptsAll,Bool.and_eq_true] at ha
    obtain ⟨⟨⟨hkey,ht⟩,hv⟩,hrest⟩ := ha
    exact List.forall_mem_cons.mpr ⟨⟨ihv hn.2.1 ht hv,hkey,ignores_toBson hn.1⟩,ihd hn.2.2 hrest⟩

end Shape

mutual

/-- A value with the flags of its regular expressions as libbson stores them. -/
def normalRegex (L : Libbson) : Zval → Zval
  | .bson (.regex pattern flags) => .bson (.regex pattern (L.regexOptions flags))
  | .array ht els => .array ht (normalRegexAll L els)
  | .object ce ht properties returned => .object ce ht (normalRegexAll L properties) returned
  | z => z

def normalRegexAll (L : Libbson) : List (Key × Zval) → List (Key × Zval)
  | [] => []
  | (key,z)::rest => (key,normalRegex L z)::normalRegexAll L rest

end

/-- No NUL where libbson takes a `char*`. -/
def NulFreeObject : BsonObject → Prop
  | .javascript code _ => (0 : UInt8) ∉ code
  | .dbPointer ref _ => (0 : UInt8) ∉ ref
  | _ => True

mutual

def NulFreeZval : Zval → Prop
  | .bson obj => NulFreeObject obj
  | .array _ els => NulFreeTable els
  | .object _ _ properties _ => NulFreeTable properties
  | _ => True

def NulFreeTable : List (Key × Zval) → Prop
  | [] => True
  | (_,z)::rest => NulFreeZval z ∧ NulFreeTable rest

end

mutual

/-- No Javascript code and no DBPointer namespace holds a NUL, apart from fields that a later
field of the same name replaces. -/
def NulFree : BsonValue → Prop
  | .code c | .codeWithScope c _ => (0 : UInt8) ∉ c
  | .dbPointer ns _ => (0 : UInt8) ∉ ns
  | .document d => NulFreeFields d
  | .array d => NulFreeElements d
  | _ => True

def NulFreeFields : List (CString × BsonValue) → Prop
  | [] => True
  | (key,v)::rest => (key ∈ keys rest ∨ NulFree v) ∧ NulFreeFields rest

def NulFreeElements : List (CString × BsonValue) → Prop
  | [] => True
  | (_,v)::rest => NulFree v ∧ NulFreeElements rest

end

section Rereading
variable {L : Libbson} {U : Userland}

theorem nulFreeTable_iff {els : List (Key × Zval)} :
    NulFreeTable els ↔ ∀ e ∈ els, NulFreeZval e.2 := by
  induction els with
  | nil => simp [NulFreeTable]
  | cons e els ih =>
    obtain ⟨key,z⟩ := e
    simp [NulFreeTable,ih]

theorem keys_phpFields (d : Doc) : keys (phpFields L d) = keys d := by
  induction d with
  | nil => rfl
  | cons e d ih =>
    obtain ⟨key,v⟩ := e
    simp [phpFields,ih]

theorem nulFreeZval_phpValue (L : Libbson) :
    (∀ v, NulFreeZval (phpValue L v) ↔ NulFree v) ∧
    (∀ d : Doc,
      (Effective NulFreeZval ((phpFields L d).map fun e => (Key.str e.1.bytes,e.2)) ↔
        NulFreeFields d) ∧
      ((∀ e ∈ phpFields L d, NulFreeZval e.2) ↔ NulFreeElements d)) := by
  refine BsonValue.induction ?leaf ?document ?array ?scope ?nil ?cons
  case leaf =>
    intro v hv
    cases v <;> first | exact Iff.rfl | exact hv.elim
  case document =>
    intro d ih
    rw [phpValue_document,NulFreeZval,nulFreeTable_iff,
      forall_mem_updateAll _ _ (by simp),NulFree,← ih.1]
    simp
  case array =>
    intro d ih
    rw [phpValue_array,NulFreeZval,nulFreeTable_iff,NulFree,← ih.2]
    have hmem : ∀ (n : ℕ) (zs : List Zval),
        (∀ e ∈ indexedFrom n zs, NulFreeZval e.2) ↔ ∀ z ∈ zs, NulFreeZval z := fun n zs => by
      induction zs generalizing n with
      | nil => simp [indexedFrom]
      | cons z zs ih => simp only [indexedFrom,List.forall_mem_cons,ih]
    rw [hmem,List.forall_mem_map]
  case scope =>
    intro c s _
    exact Iff.rfl
  case nil => exact ⟨Iff.rfl,by simp [phpFields,NulFreeElements]⟩
  case cons =>
    intro key v rest ihv ihd
    have hkey : Key.str key.bytes ∈
        keys ((phpFields L rest).map fun e => (Key.str e.1.bytes,e.2)) ↔ key ∈ keys rest := by
      rw [← keys_phpFields (L:=L)]
      simp only [keys,List.map_map,List.mem_map,Function.comp_apply]
      refine exists_congr fun e => and_congr_right fun _ => ?_
      exact ⟨fun h => CString.ext (Key.str.inj h),fun h => by rw [h]⟩
    constructor
    · simp only [phpFields,List.map_cons,Effective,hkey,ihv,ihd.1,NulFreeFields]
    · simp only [phpFields,List.forall_mem_cons,ihv,ihd.2,NulFreeElements]

def reread (L : Libbson) (z : Zval) : Zval := phpValue L (toBson L z)

theorem phpFields_toFields (els : List (Key × Zval)) :
    phpFields L (toFields L els) = els.map fun e => (keyName e.1,reread L e.2) := by
  induction els with
  | nil => rfl
  | cons e els ih =>
    obtain ⟨key,z⟩ := e
    simp [toFields,phpFields,ih,reread]

theorem reread_array {els : List (Key × Zval)} (h : keysAreIndices 0 els = true) :
    reread L (.array none els) = .array none (els.map fun e => (e.1,reread L e.2)) := by
  have hi := indexedFrom_of_keysAreIndices
    ((keysAreIndices_map (reread L) 0 els).trans h)
  rw [reread,toBson,h,if_pos rfl,phpValue_array,phpFields_toFields,← hi]
  simp [Function.comp_def]

theorem reread_object {properties : List (Key × Zval)}
    (h : DecodedProperties L U properties) :
    reread L (.object .stdClass none properties .null) =
      .object .stdClass none (properties.map fun e => (e.1,reread L e.2)) .null := by
  have hmap : (properties.map fun e => (keyName e.1,reread L e.2)).map
      (fun e => (Key.str e.1.bytes,e.2)) = properties.map fun e => (e.1,reread L e.2) := by
    rw [List.map_map]
    refine List.map_congr_left fun e he => ?_
    obtain ⟨name,hname,-⟩ := h.name e he
    simp [hname,keyName,Key.toStr]
  have hkeys : keys (properties.map fun e => (e.1,reread L e.2)) = keys properties := by
    simp [keys,Function.comp_def]
  rw [reread,toBson,phpValue_document,phpFields_toFields,hmap,
    updateAll_self _ (hkeys ▸ h.nodup)]

theorem keyName_int_ne_odm (n : Int64) : keyName (.int n) ≠ odmFieldName := fun h => by
  have hn : (keyName (.int n)).bytes = longToStr n := bytes_keyName (zero_notMem_longToStr n)
  have hb := congrArg (fun s => symtable s.bytes) h
  simp only [hn,symtable_longToStr] at hb
  have ho : symtable odmFieldName.bytes = .str odmFieldName.bytes := by decide
  rw [ho] at hb
  exact Key.noConfusion hb

/-- A plain value that is reread as it was, flags of regular expressions normalised, exactly if
no NUL is in the way, and whose encoding is then accepted. -/
def IsReread (L : Libbson) (U : Userland) (z : Zval) : Prop :=
  IsData L U z ∧ NoPclass U (toBson L z) ∧ (reread L z = normalRegex L z ↔ NulFreeZval z) ∧
    (NulFreeZval z → L.textValid (toBson L z) = true ∧ accepts L (toBson L z) = true)

/-- A name that the decoder takes, of a field that names no usable class. -/
def NameReread (L : Libbson) (U : Userland) (e : Key × Zval) : Prop :=
  (0 : UInt8) ∉ e.1.toStr ∧ L.keyValid (keyName e.1) = true ∧
    U.Ignores (keyName e.1) (toBson L e.2)

def AreReread (L : Libbson) (U : Userland) (els : List (Key × Zval)) : Prop :=
  AreData L U els ∧ NoPclassAll U (toFields L els) ∧
    ((els.map fun e => (e.1,reread L e.2)) = normalRegexAll L els ↔ NulFreeTable els) ∧
    (NulFreeTable els → acceptsAll L (toFields L els) = true)

theorem long_isReread (L : Libbson) (U : Userland) (n : Int64) : IsReread L U (.long n) := by
  have hm := materialise_intValue L U .default [] [] n
  have hn : NoPclass U (intValue n) := by unfold intValue; split <;> trivial
  have hr : reread L (.long n) = .long n := by
    have hp := (materialise_noPclass L U).1 (intValue n) hn [] []
    rw [hm] at hp
    exact (congrArg Prod.fst hp).symm
  exact ⟨trivial,hn,iff_of_true hr trivial,fun _ => intValue_valid L n⟩

theorem dbPointer_isReread {ref : Bytes} {id : CString} (h : DecodedObject L U (.dbPointer ref id)) :
    IsReread L U (.bson (.dbPointer ref id)) := by
  obtain ⟨ht,ho⟩ := h
  refine ⟨trivial,trivial,?_,fun hf => ⟨?_,rfl⟩⟩
  · simp only [reread,toBson,bsonObjectValue,phpValue,leafValue,ho,normalRegex,NulFreeZval,
      NulFreeObject,Zval.bson.injEq,BsonObject.dbPointer.injEq,and_true]
    exact cstr_eq_self_iff ref
  · rw [toBson,bsonObjectValue,cstr_of_notMem ref hf]
    exact ht

theorem javascript_isReread {code : Bytes} {scope : Option Doc}
    (h : DecodedObject L U (.javascript code scope)) :
    IsReread L U (.bson (.javascript code scope)) := by
  cases scope with
  | none =>
    refine ⟨trivial,trivial,?_,fun hf => ⟨?_,rfl⟩⟩
    · simp only [reread,toBson,bsonObjectValue,phpValue,leafValue,normalRegex,NulFreeZval,
        NulFreeObject,Zval.bson.injEq,BsonObject.javascript.injEq,and_true]
      exact cstr_eq_self_iff code
    · rw [toBson,bsonObjectValue,cstr_of_notMem code hf]
      exact h
  | some scope =>
    obtain ⟨ht,ha,hn⟩ := h
    have hs := (bsonToZvalEx_fresh (U:=U) ha Typemap.default []).2.2
    rw [materialiseRoot_noPclass hn] at hs
    refine ⟨hs,hn,?_,fun hf => ⟨?_,ha⟩⟩
    · simp only [reread,toBson,bsonObjectValue,phpValue,normalRegex,NulFreeZval,
        NulFreeObject,Zval.bson.injEq,BsonObject.javascript.injEq,and_true]
      exact cstr_eq_self_iff code
    · rw [toBson,bsonObjectValue,cstr_of_notMem code hf]
      exact ht

theorem bson_isReread (hL : L.Lawful) {obj : BsonObject} (h : DecodedObject L U obj) :
    IsReread L U (.bson obj) := by
  cases obj with
  | int64 n => exact h.elim
  | objectId oid =>
    have ho : L.oidToString (L.oidInitFromString oid) = oid := h
    refine ⟨trivial,trivial,iff_of_true ?_ trivial,fun _ => ⟨rfl,rfl⟩⟩
    simp only [reread,toBson,bsonObjectValue,phpValue,leafValue,ho,normalRegex]
  | regex pattern flags =>
    refine ⟨trivial,trivial,iff_of_true rfl trivial,fun _ => ⟨?_,rfl⟩⟩
    have hp : L.utf8Validate pattern.bytes true = true := h
    simp only [toBson,bsonObjectValue,Libbson.textValid,hp,hL.regexOptions,Bool.and_self]
  | symbol s => exact ⟨trivial,trivial,iff_of_true rfl trivial,fun _ => ⟨h,rfl⟩⟩
  | dbPointer ref id => exact dbPointer_isReread h
  | javascript code scope => exact javascript_isReread h
  | _ => exact ⟨trivial,trivial,iff_of_true rfl trivial,fun _ => ⟨rfl,rfl⟩⟩

theorem leaf_isReread (hL : L.Lawful) {z : Zval} (hl : z.IsLeaf) (hz : IsDecoded L U z) :
    IsReread L U z := by
  cases z with
  | array | object | reference => exact hl.elim
  | undef | cursorId | resource => exact hz.elim
  | null | bool | double =>
    exact ⟨trivial,trivial,iff_of_true rfl trivial,fun _ => ⟨rfl,rfl⟩⟩
  | string s => exact ⟨hz,trivial,iff_of_true rfl trivial,fun _ => ⟨hz,rfl⟩⟩
  | long n => exact long_isReread L U n
  | bson obj => exact bson_isReread hL hz

theorem nameReread_of_keysAreIndices (hL : L.Lawful) {els : List (Key × Zval)}
    (hk : keysAreIndices 0 els = true) : ∀ e ∈ els, NameReread L U e := by
  intro e he
  obtain ⟨i,hi⟩ := exists_int_of_keysAreIndices hk e he
  have hz0 : (0 : UInt8) ∉ (Key.int i).toStr := zero_notMem_longToStr i
  rw [NameReread,hi]
  refine ⟨hz0,?_,ignores_of_ne (keyName_int_ne_odm i) _⟩
  rw [Libbson.keyValid,bytes_keyName hz0,Key.toStr,hL.ascii _ _ (longToStr_ascii i),
    Bool.or_true]

theorem nameReread_of_decodedProperties {properties : List (Key × Zval)}
    (h : DecodedProperties L U properties) : ∀ e ∈ properties, NameReread L U e := by
  intro e he
  obtain ⟨name,hname,hvalid,hclass⟩ := h.name e he
  have hk : keyName e.1 = name := by simp [hname,keyName,Key.toStr]
  refine ⟨?_,by rw [hk]; exact hvalid,by rw [hk]; exact hclass⟩
  rw [hname]
  exact name.zero_notMem

theorem array_isReread {els : List (Key × Zval)} (hk : keysAreIndices 0 els = true)
    (h : AreReread L U els) : IsReread L U (.array none els) := by
  obtain ⟨hdata,hpclass,hsame,haccepts⟩ := h
  have hb : toBson L (.array none els) = .array (toFields L els) := by
    rw [toBson,hk,if_pos rfl]
  rw [IsReread,hb,reread_array hk,normalRegex,Zval.array.injEq,hsame]
  exact ⟨⟨rfl,hdata⟩,hpclass,by simp [NulFreeZval],fun hf => ⟨rfl,haccepts hf⟩⟩

theorem object_isReread {properties : List (Key × Zval)} (hprops : DecodedProperties L U properties)
    (h : AreReread L U properties) : IsReread L U (.object .stdClass none properties .null) := by
  obtain ⟨hdata,hpclass,hsame,haccepts⟩ := h
  rw [IsReread,reread_object hprops,normalRegex,Zval.object.injEq,hsame]
  exact ⟨⟨rfl,rfl,hdata⟩,hpclass,by simp [NulFreeZval],fun hf => ⟨rfl,haccepts hf⟩⟩

theorem cons_areReread {key : Key} {z : Zval} {rest : List (Key × Zval)}
    (hname : NameReread L U (key,z)) (hz : IsReread L U z) (hrest : AreReread L U rest) :
    AreReread L U ((key,z)::rest) := by
  obtain ⟨hz0,hvalid,hclass⟩ := hname
  obtain ⟨hdata,hpclass,hsame,haccepts⟩ := hz
  obtain ⟨hdata',hpclass',hsame',haccepts'⟩ := hrest
  refine ⟨⟨hz0,hdata,hdata'⟩,⟨hclass,hpclass,hpclass'⟩,?_,fun hf => ?_⟩
  · simp only [List.map_cons,normalRegexAll,List.cons.injEq,Prod.mk.injEq,true_and,hsame,
      hsame',NulFreeTable]
  · obtain ⟨ht,ha⟩ := haccepts hf.1
    have hrest : acceptsAll L (toFields L rest) = true := haccepts' hf.2
    simp only at hvalid
    simp only [toFields,acceptsAll,hvalid,ht,ha,hrest,Bool.and_self]

theorem isDecoded_spec (hL : L.Lawful) :
    (∀ z, IsDecoded L U z → IsReread L U z) ∧
    (∀ els, AreDecoded L U els → (∀ e ∈ els, NameReread L U e) → AreReread L U els) := by
  refine Zval.induction ?leaf ?array ?object ?reference ?nil ?cons
  case leaf => exact fun z hl hz => leaf_isReread hL hl hz
  case array =>
    intro ht els ih hz
    obtain ⟨rfl,hk,hels⟩ := hz
    exact array_isReread hk (ih hels (nameReread_of_keysAreIndices hL hk))
  case object =>
    intro ce ht properties returned ih _ hz
    obtain ⟨rfl,rfl,rfl,hprops,hels⟩ := hz
    exact object_isReread hprops (ih hels (nameReread_of_decodedProperties hprops))
  case reference => exact fun z _ hz => hz.elim
  case nil => exact fun _ _ => ⟨trivial,trivial,iff_of_true rfl trivial,fun _ => rfl⟩
  case cons =>
    intro key z rest ihz ihr hz hnames
    obtain ⟨hname,hrest⟩ := List.forall_mem_cons.mp hnames
    exact cons_areReread hname (ihz hz.1) (ihr hz.2 hrest)

end Rereading

/-- A document accepted under the default typemap, without a usable class, keeps its value
through encoding and decoding exactly if no code and no namespace in it holds a NUL. -/
theorem reencoding_stable_iff (L : Libbson) (U : Userland) (hL : L.Lawful) (d : Doc)
    (haccepted : (bsonToZvalEx L U (.read d true) BsonState.init []).ok = true)
    (hpclass : NoPclassAll U d) :
    let first := (bsonToZvalEx L U (.read d true) BsonState.init []).state.zchild
    let encoded := zvalToBson L U first .none []
    let second := bsonToZvalEx L U (.read encoded.1 true) BsonState.init []
    (encoded.2.2 = [] ∧ second.ok = true ∧ second.exceptions = [] ∧
      second.state.zchild = normalRegex L first) ↔ NulFreeFields d := by
  have ha : acceptsAll L d = true := by
    by_contra hf
    have hr := (bsonToZvalRoot_rejects (U:=U) (by simpa using hf) true BsonState.init []).1
    exact absurd (hr.symm.trans haccepted) (by simp)
  have hfirst := (bsonToZvalEx_fresh (U:=U) ha Typemap.default []).2.1
  rw [materialiseRoot_noPclass hpclass] at hfirst
  have hdecoded := (phpValue_isDecoded hL).1 (.document d) hpclass rfl ha
  obtain ⟨hdata,hnone,hsame,hvalid⟩ := (isDecoded_spec hL).1 _ hdecoded
  rw [(nulFreeZval_phpValue L).1] at hsame hvalid
  rw [phpValue_document] at hfirst hdata hnone hsame hvalid
  -- the properties of the decoded root
  generalize updateAll [] ((phpFields L d).map fun e => (Key.str e.1.bytes,e.2)) = properties at *
  obtain ⟨hd,hencoder⟩ := closeFields_yields ((append_data L U).2 properties hdata.2.2 true
    (Encoder.init []) rfl)
  have hencoded : (zvalToBson L U (.object .stdClass none properties .null) .none []).1 =
      toFields L properties := hd
  intro first encoded second
  have hf : first = .object .stdClass none properties .null := hfirst
  have he : encoded.1 = toFields L properties := by
    show (zvalToBson L U first .none []).1 = _
    rw [hf,hencoded]
  have hquiet : encoded.2.2 = [] := by
    show (zvalToBson L U first .none []).2.2 = _
    rw [hf]
    exact hencoder.exceptions
  have hs : second = bsonToZvalEx L U (.read (toFields L properties) true) BsonState.init [] := by
    show bsonToZvalEx L U (.read encoded.1 true) BsonState.init [] = _
    rw [he]
  constructor
  · rintro ⟨-,hok,-,hz⟩
    rw [hs] at hok hz
    have ha' : acceptsAll L (toFields L properties) = true := by
      by_contra hn
      have hr := (bsonToZvalRoot_rejects (U:=U) (by simpa using hn) true BsonState.init []).1
      exact absurd (hr.symm.trans hok) (by simp)
    have hsecond := (bsonToZvalEx_fresh (U:=U) ha' Typemap.default []).2.1
    rw [materialiseRoot_noPclass hnone] at hsecond
    exact hsame.mp (hsecond.symm.trans (hz.trans (by rw [hf])))
  · intro hfree
    have ha' : acceptsAll L (toFields L properties) = true := (hvalid hfree).2
    obtain ⟨hok,hz,heg⟩ := bsonToZvalEx_fresh (U:=U) ha' Typemap.default []
    rw [materialiseRoot_noPclass hnone] at hz heg
    rw [hs,hf]
    exact ⟨hquiet,hok,heg,hz.trans (hsame.mpr hfree)⟩

/-- A regular expression in a list, and code that a number replaces. -/
theorem reencoding_stable_iff_regex :
    let d : Doc := [(.lit "c",.code [97,0,98]),(.lit "l",.array [(.lit "9",.regex (.lit "a") (.lit "xi"))]),
      (.lit "c",.int64 5)]
    let first :=
      (bsonToZvalEx .ascii (.keeping .person) (.read d true) BsonState.init []).state.zchild
    let encoded := zvalToBson .ascii (.keeping .person) first .none []
    let second := bsonToZvalEx .ascii (.keeping .person) (.read encoded.1 true) BsonState.init []
    (encoded.2.2 = [] ∧ second.ok = true ∧ second.exceptions = [] ∧
      second.state.zchild = normalRegex .ascii first) ↔ NulFreeFields d :=
  reencoding_stable_iff .ascii (.keeping .person) Libbson.ascii_lawful _ (by decide)
    ⟨ignores_of_ne (by decide) _,trivial,ignores_of_ne (by decide) _,
      ⟨ignores_of_ne (by decide) _,trivial,trivial⟩,ignores_of_ne (by decide) _,trivial,trivial⟩

/-- Javascript code with a NUL comes back cut short. -/
theorem reencoding_not_stable :
    ¬ ∀ (L : Libbson) (U : Userland), L.Lawful → ∀ d : Doc,
      (bsonToZvalEx L U (.read d true) BsonState.init []).ok = true → NoPclassAll U d →
      let first := (bsonToZvalEx L U (.read d true) BsonState.init []).state.zchild
      let encoded := zvalToBson L U first .none []
      let second := bsonToZvalEx L U (.read encoded.1 true) BsonState.init []
      encoded.2.2 = [] ∧ second.ok = true ∧ second.exceptions = [] ∧
        second.state.zchild = normalRegex L first := by
  intro h
  obtain ⟨-,-,-,hz⟩ := h .ascii (.keeping .person) Libbson.ascii_lawful
    [(.lit "c",.code [97,0,98])] (by decide)
    ⟨ignores_of_ne (by decide) _,trivial,trivial⟩
  have hz' : Zval.object .stdClass none [(.str (ascii "c"),.bson (.javascript [97] none))] .null =
      .object .stdClass none [(.str (ascii "c"),.bson (.javascript [97,0,98] none))] .null := hz
  simp at hz'

end Phongo
