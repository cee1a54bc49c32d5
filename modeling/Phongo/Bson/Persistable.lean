import Mathlib.Tactic.Common
import Phongo.Bson.Encoding
import Phongo.Bson.RoundTrip

/-! Trees of plain values and Persistable objects through the encoder and back.
The encoder writes `__pclass` before what an object's `bsonSerialize()` returned, the decoder
makes an object of that class and gives it both. A class that undoes its own serialization gets
its objects back at any depth. -/
namespace Phongo
open OrderedTable

/-- The elements of a table under the keys an array stores them. -/
def symtableOf (els : List (Key × Zval)) : List (Key × Zval) :=
  els.map fun e => (symtable e.1.toStr,e.2)

/-- What `bsonUnserialize()` is given for an object whose `bsonSerialize()` returned `els`. -/
def persisted (ce : ClassEntry) (els : List (Key × Zval)) : Zval :=
  .array none ((.str odmFieldName.bytes,.bson (.binary ce.name 0x80))::symtableOf els)

/-- The table of an array or a `stdClass` object. -/
def Zval.returnedTable : Zval → List (Key × Zval)
  | .array _ els => els
  | .object _ _ properties _ => properties
  | _ => []

/-- The driver finds the class, and its `bsonUnserialize()` restores the object. -/
structure RestoresTo (U : Userland) (ce : ClassEntry) (properties : List (Key × Zval))
    (returned : Zval) : Prop where
  persistable : ce.isPersistable = true
  found : U.odmClass ce.name = some ce
  restored : U.bsonUnserialize ce (persisted ce returned.returnedTable) =
    (⟨properties,returned⟩,[])

/-- Distinct valid names, none of them `__pclass`. -/
structure PersistedNames (L : Libbson) (els : List (Key × Zval)) : Prop where
  nodup : (els.map fun e => e.1.toStr).Nodup
  nul : ∀ e ∈ els, (0 : UInt8) ∉ e.1.toStr
  valid : ∀ e ∈ els, L.keyValid (keyName e.1) = true
  odm : ∀ e ∈ els, keyName e.1 ≠ odmFieldName

/-- A value object that libbson stores as it is. -/
def StoredObject (L : Libbson) (U : Userland) (obj : BsonObject) : Prop :=
  DecodedObject L U obj ∧ NulFreeObject obj ∧ normalRegex L (.bson obj) = .bson obj

mutual

/-- Trees of scalars, value objects, lists, `stdClass` objects and restorable Persistables. -/
def IsStored (L : Libbson) (U : Userland) : Zval → Prop
  | .null | .bool _ | .long _ | .double _ => True
  | .string s => L.utf8Validate s true = true
  | .array ht els => ht = none ∧ keysAreIndices 0 els = true ∧ AreStored L U els
  | .bson obj => StoredObject L U obj
  | .object ce ht properties returned => ht = none ∧
      ((ce = .stdClass ∧ returned = .null ∧ DecodedProperties L U properties ∧
          AreStored L U properties) ∨
        (RestoresTo U ce properties returned ∧ IsReturned L U returned))
  | _ => False

/-- What the `bsonSerialize()` of a Persistable returns. -/
def IsReturned (L : Libbson) (U : Userland) : Zval → Prop
  | .array _ els => PersistedNames L els ∧ AreStored L U els
  | .object ce _ properties _ => ce = .stdClass ∧ PersistedNames L properties ∧
      AreStored L U properties
  | _ => False

def AreStored (L : Libbson) (U : Userland) : List (Key × Zval) → Prop
  | [] => True
  | (_,z)::rest => IsStored L U z ∧ AreStored L U rest

end

section
variable {L : Libbson} {U : Userland}

/-- The value has an encoding that is decoded to the value itself, wherever it stands. -/
def IsRestored (L : Libbson) (U : Userland) (z : Zval) : Prop :=
  ∃ v, (∀ tables, encoding L U tables z = some v) ∧ L.textValid v = true ∧
    accepts L v = true ∧ (∀ name, U.Ignores name (toBson L z) → U.Ignores name v) ∧
    ∀ path, materialise L U .default path [] v = (z,[])

/-- The elements of a table are appended as fields that are decoded to its values. -/
def AreRestored (L : Libbson) (U : Userland) (els : List (Key × Zval)) : Prop :=
  ∃ d, (∀ tables fromProperties skip, (skip = true → ∀ e ∈ els, keyName e.1 ≠ odmFieldName) →
      fieldsEncoding L U tables fromProperties skip els = some d) ∧
    acceptsAll L d = true ∧ U.pclassOf d = none ∧
    ∀ path, materialiseAll L U .default path [] d = (els.map fun e => (keyName e.1,e.2),[])

theorem inspectKey_skip {key : Key} (h : (0 : UInt8) ∉ key.toStr)
    (hodm : keyName key ≠ odmFieldName) (fromProperties skip : Bool) :
    inspectKey fromProperties skip key = .append (keyName key) := by
  rw [← inspectKey_append h fromProperties]
  cases key with
  | int n => rfl
  | str s =>
    have hs : s ≠ odmFieldName.bytes := fun he => hodm (by simp [keyName,Key.toStr,he])
    simp [inspectKey,hs]

theorem leaf_isRestored (hL : L.Lawful) {z : Zval} (hl : z.IsLeaf) (hz : IsStored L U z) :
    IsRestored L U z := by
  have hplain : IsDecoded L U z ∧ NulFreeZval z ∧ normalRegex L z = z := by
    cases z with
    | array | object | reference => exact hl.elim
    | undef | cursorId | resource => exact hz.elim
    | string s => exact ⟨hz,trivial,rfl⟩
    | bson obj => exact hz
    | _ => exact ⟨trivial,trivial,rfl⟩
  obtain ⟨hdecoded,hfree,hregex⟩ := hplain
  obtain ⟨hdata,hnone,hsame,hvalid⟩ := leaf_isReread hL hl hdecoded
  refine ⟨toBson L z,fun tables => ?_,(hvalid hfree).1,(hvalid hfree).2,fun name h => h,
    fun path => ?_⟩
  · cases z with
    | array | object | reference => exact hl.elim
    | undef | cursorId | resource => exact hz.elim
    | string s =>
      have hs : L.utf8Validate s true = true := hz
      simp [encoding,toBson,hs]
    | bson obj =>
      have hscope : ScopeDecodes L U obj := hdata
      simp [encoding,toBson,hscope]
    | _ => rfl
  · rw [(materialise_noPclass L U).1 _ hnone]
    exact Prod.ext ((hsame.mpr hfree).trans hregex) rfl

theorem nil_areRestored (L : Libbson) (U : Userland) : AreRestored L U [] :=
  ⟨[],fun _ _ _ _ => rfl,rfl,rfl,fun _ => rfl⟩

theorem cons_areRestored {key : Key} {z : Zval} {rest : List (Key × Zval)}
    (hname : NameReread L U (key,z)) (hz : IsRestored L U z) (hrest : AreRestored L U rest) :
    AreRestored L U ((key,z)::rest) := by
  obtain ⟨hnul,hkey,hclass⟩ := hname
  obtain ⟨v,hv,htext,haccepts,hpclass,hvalue⟩ := hz
  obtain ⟨d,hd,hacceptsAll,hnone,hfields⟩ := hrest
  refine ⟨(keyName key,v)::d,fun tables fromProperties skip hodm => ?_,?_,?_,fun path => ?_⟩
  · have hk : inspectKey fromProperties skip key = .append (keyName key) := by
      cases skip with
      | false => exact inspectKey_append hnul fromProperties
      | true =>
        exact inspectKey_skip hnul (hodm rfl (key,z) List.mem_cons_self) fromProperties true
    have hd' := hd tables fromProperties skip fun hs e he =>
      hodm hs e (List.mem_cons_of_mem _ he)
    simp only [fieldsEncoding,hk,hv,hd']
  · have hk : L.keyValid (keyName key) = true := hkey
    simp only [acceptsAll,hk,htext,haccepts,hacceptsAll,Bool.and_self]
  · rw [Userland.pclassOf,hnone,(hpclass _ hclass).unset]
    rfl
  · simp only [materialiseAll,hvalue,(hpclass _ hclass).loads,hfields,List.map_cons]

theorem array_isRestored {els : List (Key × Zval)} (hk : keysAreIndices 0 els = true)
    (h : AreRestored L U els) : IsRestored L U (.array none els) := by
  obtain ⟨d,hd,haccepts,-,hfields⟩ := h
  refine ⟨.array d,fun tables => ?_,rfl,haccepts,
    fun name _ => ignores_of_ne_binary fun _ _ => BsonValue.noConfusion,fun path => ?_⟩
  · have hd' := hd tables false false fun hs => absurd hs Bool.false_ne_true
    simp [encoding,hd',hk]
  · have hvalues : ((els.map fun e => (keyName e.1,e.2)).map Prod.snd) = els.map Prod.snd := by
      simp
    simp only [materialise,hfields,Typemap.arrayTarget,ofFields_true,hvalues,
      indexedFrom_of_keysAreIndices hk]
    rfl

theorem ofFields_named {els : List (Key × Zval)} (hnodup : (els.map fun e => e.1.toStr).Nodup)
    (hnul : ∀ e ∈ els, (0 : UInt8) ∉ e.1.toStr) :
    ofFields false (els.map fun e => (keyName e.1,e.2)) = .array none (symtableOf els) := by
  have hmap : (els.map fun e => (keyName e.1,e.2)).map (fun e => (symtable e.1.bytes,e.2)) =
      symtableOf els := by
    rw [List.map_map]
    refine List.map_congr_left fun e he => ?_
    simp only [Function.comp_apply,bytes_keyName (hnul e he)]
  have hkeys : (keys (symtableOf els)).Nodup := by
    have hsym := hnodup.map symtable_injective
    simpa [keys,symtableOf,Function.comp_def] using hsym
  rw [ofFields_false,hmap,updateAll_self _ hkeys]

theorem DecodedProperties.names {properties : List (Key × Zval)}
    (h : DecodedProperties L U properties) :
    (properties.map fun e => e.1.toStr).Nodup ∧ (∀ e ∈ properties, (0 : UInt8) ∉ e.1.toStr) ∧
      Zval.toProptable (symtableOf properties) = properties := by
  have hstr : ∀ e ∈ properties, Key.str e.1.toStr = e.1 := fun e he => by
    obtain ⟨name,hname,-⟩ := h.name e he
    rw [hname]
    rfl
  have hmap : (properties.map fun e => e.1.toStr).map Key.str = keys properties := by
    rw [List.map_map]
    exact List.map_congr_left hstr
  refine ⟨List.Nodup.of_map Key.str (hmap ▸ h.nodup),
    fun e he => (nameReread_of_decodedProperties h e he).1,?_⟩
  rw [Zval.toProptable,symtableOf,List.map_map]
  refine (List.map_congr_left fun e he => ?_).trans (List.map_id properties)
  simp only [Function.comp_apply,toStr_symtable,hstr e he,id]

/-- A `stdClass` object is what an unset type makes of a document. -/
theorem stdClass_isRestored {properties : List (Key × Zval)}
    (hprops : DecodedProperties L U properties) (h : AreRestored L U properties) :
    IsRestored L U (.object .stdClass none properties .null) := by
  obtain ⟨d,hd,haccepts,hnone,hfields⟩ := h
  obtain ⟨hnodup,hnul,htable⟩ := hprops.names
  refine ⟨.document d,fun tables => ?_,rfl,haccepts,
    fun name _ => ignores_of_ne_binary fun _ _ => BsonValue.noConfusion,fun path => ?_⟩
  · have hd' := hd tables true false fun hs => absurd hs Bool.false_ne_true
    simp [encoding,hd',ClassEntry.stdClass,ClassEntry.isSerializable,ClassEntry.isType]
  · have htarget : Typemap.default.documentTarget path none = .object := rfl
    simp only [materialise,hfields,hnone,htarget,Target.apply,ofFields_named hnodup hnul,
      Zval.convertToObject,htable]

/-- The fields of a Persistable, as the encoder appends them and as the decoder finds them. -/
def ReturnedRestored (L : Libbson) (U : Userland) (returned : Zval) : Prop :=
  returned.isArrayOrStdClass = true ∧
    ∃ d, (∀ tables, bodyEncoding L U tables returned = some d ∧
        tableEncoding L U tables true returned = some d) ∧
      acceptsAll L d = true ∧ U.pclassOf d = none ∧
      ∀ path, ∃ fields, materialiseAll L U .default path [] d = (fields,[]) ∧
        ∀ ce, ofFields false ((odmFieldName,.bson (.binary ce.name 0x80))::fields) =
          persisted ce returned.returnedTable

theorem ofFields_persisted {els : List (Key × Zval)} (h : PersistedNames L els) (ce : ClassEntry) :
    ofFields false ((odmFieldName,.bson (.binary ce.name 0x80))::
      els.map fun e => (keyName e.1,e.2)) = persisted ce els := by
  have hkey : keyName (.str odmFieldName.bytes) = odmFieldName := by decide
  have hfirst : symtable odmFieldName.bytes = .str odmFieldName.bytes := by decide
  have hnodup : (((Key.str odmFieldName.bytes,Zval.bson (.binary ce.name 0x80))::els).map
      fun e => e.1.toStr).Nodup := by
    refine List.nodup_cons.mpr ⟨fun hm => ?_,h.nodup⟩
    obtain ⟨e,he,heq⟩ := List.mem_map.mp hm
    exact h.odm e he (by rw [keyName,heq]; exact hkey)
  have hnul : ∀ e ∈ (Key.str odmFieldName.bytes,Zval.bson (.binary ce.name 0x80))::els,
      (0 : UInt8) ∉ e.1.toStr :=
    List.forall_mem_cons.mpr ⟨odmFieldName.zero_notMem,h.nul⟩
  have hall := ofFields_named hnodup hnul
  simpa [hkey,symtableOf,Key.toStr,hfirst,persisted] using hall

theorem array_returnedRestored {els : List (Key × Zval)} (ht : Option ℕ)
    (hnames : PersistedNames L els) (h : AreRestored L U els) :
    ReturnedRestored L U (.array ht els) := by
  obtain ⟨d,hd,haccepts,hnone,hfields⟩ := h
  refine ⟨rfl,d,fun tables => ⟨?_,?_⟩,haccepts,hnone,fun path => ⟨_,hfields path,fun ce => ?_⟩⟩
  · exact hd tables false false fun hs => absurd hs Bool.false_ne_true
  · exact hd tables false true fun _ => hnames.odm
  · exact ofFields_persisted hnames ce

theorem stdClass_returnedRestored {properties : List (Key × Zval)} (ht : Option ℕ)
    (returned : Zval) (hnames : PersistedNames L properties) (h : AreRestored L U properties) :
    ReturnedRestored L U (.object .stdClass ht properties returned) := by
  obtain ⟨d,hd,haccepts,hnone,hfields⟩ := h
  refine ⟨rfl,d,fun tables => ⟨?_,?_⟩,haccepts,hnone,fun path => ⟨_,hfields path,fun ce => ?_⟩⟩
  · have hd' := hd tables true false fun hs => absurd hs Bool.false_ne_true
    simpa [bodyEncoding,ClassEntry.stdClass,ClassEntry.isSerializable,ClassEntry.isType] using hd'
  · exact hd tables false true fun _ => hnames.odm
  · exact ofFields_persisted hnames ce

variable {ce : ClassEntry} {properties : List (Key × Zval)} {returned : Zval}

/-- The document of a Persistable, decoded as a root or below one. -/
theorem persisted_materialises (h : RestoresTo U ce properties returned) {d : Doc}
    (hnone : U.pclassOf d = none) {fields : List (CString × Zval)} {path : List CString}
    (hfields : materialiseAll L U .default path [] d = (fields,[]))
    (hpersisted : ofFields false ((odmFieldName,.bson (.binary ce.name 0x80))::fields) =
      persisted ce returned.returnedTable) :
    U.pclassOf (odmField ce::d) = some ce ∧
      materialise L U .default path [] (.document (odmField ce::d)) =
        (.object ce none properties returned,[]) := by
  have hpclass : U.pclassOf (odmField ce::d) = some ce := by
    rw [odmField,Userland.pclassOf,hnone]
    simp [Userland.pclassOfField,h.found]
  refine ⟨hpclass,?_⟩
  have htarget : Typemap.default.documentTarget path (some ce) = .unserialize (some ce) := rfl
  have hall : materialiseAll L U .default path [] (odmField ce::d) =
      ((odmFieldName,.bson (.binary ce.name 0x80))::fields,[]) := by
    simp [odmField,materialiseAll,materialise,leafValue,Userland.autoloadField,
      Userland.autoload_of_odmClass h.found,hfields]
  simp only [materialise,hpclass,htarget,hall,hpersisted,Target.apply,Userland.unserializeAs,
    Userland.unserialize,if_true,h.restored]
  rfl

theorem odmField_accepts (hascii : L.AcceptsAscii) {d : Doc} (h : acceptsAll L d = true) :
    acceptsAll L (odmField ce::d) = true := by
  have hname : ∀ b ∈ odmFieldName.bytes, b ≠ 0 ∧ b < 128 := by decide +kernel
  have hkey : L.keyValid odmFieldName = true := by
    rw [Libbson.keyValid,hascii _ _ hname,Bool.or_true]
  simp only [odmField,acceptsAll,hkey,h,Libbson.textValid,accepts,Bool.and_self]

theorem persistable_isRestored (hascii : L.AcceptsAscii) (h : RestoresTo U ce properties returned)
    (hreturned : ReturnedRestored L U returned) :
    IsRestored L U (.object ce none properties returned) := by
  obtain ⟨harray,d,hd,haccepts,hnone,hfields⟩ := hreturned
  have hser := ClassEntry.isSerializable_of_isPersistable h.persistable
  refine ⟨.document (odmField ce::d),fun tables => ?_,rfl,odmField_accepts hascii haccepts,
    fun name _ => ignores_of_ne_binary fun _ _ => BsonValue.noConfusion,fun path => ?_⟩
  · simp [encoding,hser,harray,(hd tables).1,h.persistable]
  · obtain ⟨fields,hf,hp⟩ := hfields path
    exact (persisted_materialises h hnone hf (hp ce)).2

end

theorem isStored_restored {L : Libbson} {U : Userland} (hL : L.Lawful) :
    (∀ z, (IsStored L U z → IsRestored L U z) ∧ (IsReturned L U z → ReturnedRestored L U z)) ∧
    (∀ els, AreStored L U els → (∀ e ∈ els, NameReread L U e) → AreRestored L U els) := by
  have hnames : ∀ els, PersistedNames L els → ∀ e ∈ els, NameReread L U e := fun els h e he =>
    ⟨h.nul e he,h.valid e he,ignores_of_ne (h.odm e he) _⟩
  refine Zval.induction ?leaf ?array ?object ?reference ?nil ?cons
  case leaf =>
    intro z hl
    refine ⟨leaf_isRestored hL hl,fun hz => ?_⟩
    cases z <;> first | exact hl.elim | exact hz.elim
  case array =>
    intro ht els ih
    constructor
    · rintro ⟨rfl,hk,hels⟩
      exact array_isRestored hk (ih hels (nameReread_of_keysAreIndices hL hk))
    · rintro ⟨hpersisted,hels⟩
      exact array_returnedRestored ht hpersisted (ih hels (hnames els hpersisted))
  case object =>
    intro ce ht properties returned ihp ihr
    constructor
    · rintro ⟨rfl,⟨rfl,rfl,hprops,hels⟩ | ⟨hrestores,hreturned⟩⟩
      · exact stdClass_isRestored hprops (ihp hels (nameReread_of_decodedProperties hprops))
      · exact persistable_isRestored hL.ascii hrestores (ihr.2 hreturned)
    · rintro ⟨rfl,hpersisted,hels⟩
      exact stdClass_returnedRestored ht returned hpersisted (ihp hels (hnames _ hpersisted))
  case reference => exact fun z _ => ⟨fun hz => hz.elim,fun hz => hz.elim⟩
  case nil => exact fun _ _ => nil_areRestored L U
  case cons =>
    intro key z rest ihz ihr hz hnamed
    obtain ⟨hname,hrest⟩ := List.forall_mem_cons.mp hnamed
    exact cons_areRestored hname (ihz.1 hz.1) (ihr hz.2 hrest)

/-- The document of a stored object that is encoded as a root. -/
theorem root_restored {L : Libbson} {U : Userland} (hL : L.Lawful) {ce : ClassEntry}
    {properties : List (Key × Zval)} {returned : Zval}
    (h : IsStored L U (.object ce none properties returned)) :
    ∃ d, bodyEncoding L U [] (.object ce none properties returned) = some d ∧
      acceptsAll L d = true ∧
      materialiseRoot L U .default [] d = (.object ce none properties returned,[]) := by
  have hroot : ∀ d, materialiseRoot L U .default [] d =
      materialise L U .default [] [] (.document d) := fun d => by
    rw [materialiseRoot,materialise]
    rfl
  obtain ⟨-,⟨rfl,rfl,hprops,hels⟩ | ⟨hrestores,hreturned⟩⟩ := h
  · have hnames := nameReread_of_decodedProperties hprops
    obtain ⟨d,hd,haccepts,hnone,hfields⟩ := (isStored_restored hL).2 _ hels hnames
    obtain ⟨hnodup,hnul,htable⟩ := hprops.names
    refine ⟨d,?_,haccepts,?_⟩
    · have hd' := hd [] true false fun hs => absurd hs Bool.false_ne_true
      simpa [bodyEncoding,ClassEntry.stdClass,ClassEntry.isSerializable,ClassEntry.isType]
        using hd'
    · have htarget : Typemap.default.documentTarget [] none = .object := rfl
      simp only [hroot,materialise,hfields,hnone,htarget,Target.apply,
        ofFields_named hnodup hnul,Zval.convertToObject,htable]
  · obtain ⟨harray,d,hd,haccepts,hnone,hfields⟩ := ((isStored_restored hL).1 returned).2 hreturned
    have hser := ClassEntry.isSerializable_of_isPersistable hrestores.persistable
    obtain ⟨fields,hf,hp⟩ := hfields []
    refine ⟨odmField ce::d,?_,odmField_accepts hL.ascii haccepts,?_⟩
    · simp [bodyEncoding,hser,harray,(hd []).2,hrestores.persistable]
    · rw [hroot]
      exact (persisted_materialises hrestores hnone hf (hp ce)).2

theorem single_restored {L : Libbson} {U : Userland} {name : CString} {v : BsonValue} {z : Zval}
    (hkey : L.keyValid name = true) (hname : name ≠ odmFieldName) (ht : L.textValid v = true)
    (ha : accepts L v = true) (hz : ∀ path, materialise L U .default path [] v = (z,[])) :
    let decoded := bsonToZvalEx L U (.read [(name,v)] true)
      { BsonState.init with map := { Typemap.default with rootType := .nativeArray } } []
    decoded.ok = true ∧ decoded.state.zchild = .array none [(symtable name.bytes,z)] ∧
      decoded.exceptions = [] := by
  have haccepts : acceptsAll L [(name,v)] = true := by simp [acceptsAll,hkey,ht,ha]
  obtain ⟨hok,hchild,heg⟩ := bsonToZvalEx_fresh (U:=U) haccepts
    { Typemap.default with rootType := .nativeArray } []
  have hfields : materialiseAll L U { Typemap.default with rootType := .nativeArray } [] []
      [(name,v)] = ([(name,z)],[]) := by
    rw [materialiseAll_rootType]
    simp only [materialiseAll,hz,loads_of_ne hname]
  have hnone : U.pclassOf [(name,v)] = none := by
    rw [Userland.pclassOf,(ignores_of_ne hname v).unset]
    rfl
  have hfield : ofFields false [(name,z)] = .array none [(symtable name.bytes,z)] := by
    rw [ofFields_false]
    rfl
  have hroot : materialiseRoot L U { Typemap.default with rootType := .nativeArray } []
      [(name,v)] = (.array none [(symtable name.bytes,z)],[]) := by
    unfold materialiseRoot
    rw [hfields,hnone]
    exact congrArg (fun z => (z,[])) hfield
  rw [hroot] at hchild heg
  exact ⟨hok,hchild,heg⟩

/-- A tree of objects whose classes undo their own serialization comes back from BSON as it was,
under the default typemap and without an exception. -/
theorem persistable_roundTrips (L : Libbson) (U : Userland) (hL : L.Lawful) (ce : ClassEntry)
    (properties : List (Key × Zval)) (returned : Zval)
    (h : IsStored L U (.object ce none properties returned)) :
    let object := Zval.object ce none properties returned
    let encoded := zvalToBson L U object .none []
    let decoded := bsonToZvalEx L U (.read encoded.1 true) BsonState.init []
    encoded.2.2 = [] ∧ decoded.ok = true ∧ decoded.state.zchild = object ∧
      decoded.exceptions = [] := by
  obtain ⟨d,hd,haccepts,hz⟩ := root_restored hL h
  obtain ⟨hfields,hsame⟩ := ((append_encoding L U).1 (.object ce none properties returned)).2.1
    (Encoder.init []) d rfl hd
  have hencoded : (zvalToBson L U (.object ce none properties returned) .none []).1 = d := hfields
  obtain ⟨hok,hchild,heg⟩ := bsonToZvalEx_fresh (U:=U) haccepts Typemap.default []
  rw [hz] at hchild heg
  simp only [hencoded]
  exact ⟨hsame.exceptions,hok,hchild,heg⟩

/-- One class whose objects drop the `__pclass` they are given. -/
def Userland.persisting (ce : ClassEntry) : Userland where
  lookupClass name := if name = ce.name then .ok ce else .error []
  objectInit _ := ⟨[],.null⟩
  bsonUnserialize _ data :=
    match data with
    | .array _ (_::els) => (⟨Zval.toProptable els,.array none els⟩,[])
    | _ => (⟨[],.null⟩,[])

/-- A person with a list that holds another and a `stdClass` object. -/
theorem persistable_roundTrips_person :
    let U := Userland.persisting .person
    let inner : List (Key × Zval) := [(.str (ascii "name"),.string (ascii "Ada"))]
    let friend := Zval.object .person none (Zval.toProptable inner) (.array none inner)
    let plain := Zval.object .stdClass none [(.str (ascii "n"),.long 5)] .null
    let outer : List (Key × Zval) :=
      [(.int 7,.array none [(.int 0,friend),(.int 1,plain)])]
    let object := Zval.object .person none (Zval.toProptable outer) (.array none outer)
    let encoded := zvalToBson .ascii U object .none []
    let decoded := bsonToZvalEx .ascii U (.read encoded.1 true) BsonState.init []
    encoded.2.2 = [] ∧ decoded.ok = true ∧ decoded.state.zchild = object ∧
      decoded.exceptions = [] := by
  have hnames : ∀ key : Key, (0 : UInt8) ∉ key.toStr → Libbson.ascii.keyValid (keyName key) = true →
      keyName key ≠ odmFieldName → ∀ z, PersistedNames .ascii [(key,z)] := fun key h0 hv ho z =>
    ⟨by simp,by simpa using h0,by simpa using hv,by simpa using ho⟩
  exact persistable_roundTrips .ascii (.persisting .person) Libbson.ascii_lawful _ _ _
    ⟨rfl,Or.inr ⟨⟨rfl,by decide,rfl⟩,hnames _ (by decide) (by decide) (by decide) _,
      ⟨rfl,by decide,
        ⟨rfl,Or.inr ⟨⟨rfl,by decide,rfl⟩,hnames _ (by decide) (by decide) (by decide) _,
          by simp [AreStored,IsStored]; decide⟩⟩,
        ⟨rfl,Or.inl ⟨rfl,rfl,⟨by decide,by simp; exact ⟨.lit "n",rfl,by decide,ignores_of_ne (by decide) _⟩⟩,
          trivial,trivial⟩⟩,trivial⟩,trivial⟩⟩

end Phongo
