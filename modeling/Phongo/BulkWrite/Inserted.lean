import Phongo.Bson.Decodable
import Phongo.Bson.GeneratedId
import Phongo.Bson.Persistable
import Phongo.BulkWrite.Builder

/-! A document on its way into a collection and out of it again. The server stores it as it was
sent, so that `find()` decodes what `insert()` encoded. -/
namespace Phongo
open OrderedTable

/-- A root that the encoder accepts, of a class the driver finds if it is a Persistable. -/
def Zval.IsDocument (U : Userland) : Zval → Prop
  | .array _ _ => True
  | .object ce _ _ returned =>
    if ce.isSerializable then
      returned.isArrayOrStdClass = true ∧ (ce.isPersistable = true → U.odmClass ce.name = some ce)
    else ce.isType = false
  | _ => False

/-- A root document whose elements BSON gives back. -/
structure Insertable (L : Libbson) (U : Userland) (z : Zval) : Prop where
  document : z.IsDocument U
  names : PersistedNames L z.rootTable
  stored : AreStored L U z.rootTable

def Zval.classField : Zval → Doc
  | .object ce _ _ _ => if ce.isPersistable then [odmField ce] else []
  | _ => []

/-- The elements of a document that is given an `_id` where it has none. -/
def withId (id : Zval) (els : List (Key × Zval)) : List (Key × Zval) :=
  if idKey ∈ keys els then els else els ++ [(idKey,id)]

/-- What a document of the given elements is read back as. -/
def Zval.readBack (U : Userland) (z : Zval) (els : List (Key × Zval)) : Zval × Pending :=
  match z with
  | .object ce _ _ _ =>
    if ce.isPersistable then U.unserialize ce (persisted ce els) []
    else (.object .stdClass none (Zval.toProptable (symtableOf els)) .null,[])
  | _ => (.object .stdClass none (Zval.toProptable (symtableOf els)) .null,[])

section
variable {L : Libbson} {U : Userland}

theorem areStored_append {els els' : List (Key × Zval)} :
    AreStored L U (els ++ els') ↔ AreStored L U els ∧ AreStored L U els' := by
  induction els with
  | nil => simp [AreStored]
  | cons e els ih => simp [AreStored,ih,and_assoc]

theorem keyName_idKey : keyName idKey = idName := by decide

theorem idName_ne_odm : idName ≠ odmFieldName := by decide

namespace PersistedNames

theorem keys_nodup {els : List (Key × Zval)} (h : PersistedNames L els) : (keys els).Nodup := by
  refine List.Nodup.of_map Key.toStr ?_
  simpa [keys,Function.comp_def] using h.nodup

/-- A new `_id` is a name as good as the others. -/
theorem withId (hL : L.Lawful) {els : List (Key × Zval)} (h : PersistedNames L els) (id : Zval) :
    PersistedNames L (withId id els) := by
  unfold Phongo.withId
  split_ifs with hmem
  · exact h
  · have hne : ∀ e ∈ els, e.1.toStr ≠ idKey.toStr := fun e he heq => by
      have happend := inspectKey_append (h.nul e he) false
      have hname : keyName e.1 = idName := by rw [← keyName_idKey,keyName,keyName,heq]
      exact hmem ((name_eq_id_iff happend).mp hname ▸ List.mem_map_of_mem he)
    refine ⟨?_,fun e he => ?_,fun e he => ?_,fun e he => ?_⟩
    · rw [List.map_append,List.nodup_append]
      refine ⟨h.nodup,List.nodup_singleton _,fun s hs t ht => ?_⟩
      obtain ⟨e,he,rfl⟩ := List.mem_map.mp hs
      obtain rfl := List.mem_singleton.mp ht
      exact hne e he
    all_goals
      rcases List.mem_append.mp he with he | he
    · exact h.nul e he
    · obtain rfl := List.mem_singleton.mp he
      exact idName.zero_notMem
    · exact h.valid e he
    · obtain rfl := List.mem_singleton.mp he
      exact keyName_idKey ▸ keyValid_lit hL.ascii (by decide +kernel)
    · exact h.odm e he
    · obtain rfl := List.mem_singleton.mp he
      exact keyName_idKey ▸ idName_ne_odm

theorem areRestored (hL : L.Lawful) {els : List (Key × Zval)} (h : PersistedNames L els)
    (hstored : AreStored L U els) : AreRestored L U els :=
  (isStored_restored hL).2 els hstored fun e he =>
    ⟨h.nul e he,h.valid e he,ignores_of_ne (h.odm e he) _⟩

end PersistedNames

theorem areStored_withId {els : List (Key × Zval)} (h : AreStored L U els) {id : Zval}
    (hid : IsStored L U id) : AreStored L U (withId id els) := by
  unfold withId
  split_ifs
  · exact h
  · exact areStored_append.mpr ⟨h,hid,trivial⟩

/-- The object that is made of a generated `_id` is encoded as that `_id`. -/
theorem isStored_generated (hL : L.Lawful) (o : Oid) :
    IsStored L U (.bson (.objectId (L.oidToString o))) ∧
      encoding L U [] (.bson (.objectId (L.oidToString o))) = some (.oid o) := by
  have hoid := hL.oid o
  refine ⟨⟨congrArg L.oidToString hoid,trivial,rfl⟩,?_⟩
  simp [encoding,ScopeDecodes,bsonObjectValue,hoid]

theorem fieldsEncoding_append {tables : List ℕ} {fromProperties skip : Bool}
    {els : List (Key × Zval)} {key : Key} {z : Zval} {d : Doc} {name : CString} {v : BsonValue}
    (hd : fieldsEncoding L U tables fromProperties skip els = some d)
    (hkey : inspectKey fromProperties skip key = .append name)
    (hv : encoding L U tables z = some v) :
    fieldsEncoding L U tables fromProperties skip (els ++ [(key,z)]) = some (d ++ [(name,v)]) := by
  induction els generalizing d with
  | nil =>
    cases hd
    simp [fieldsEncoding,hkey,hv]
  | cons e els ih =>
    obtain ⟨key',z'⟩ := e
    rw [fieldsEncoding] at hd
    rw [List.cons_append,fieldsEncoding]
    cases hk : inspectKey fromProperties skip key' with
    | skip =>
      simp only [hk] at hd
      exact ih hd
    | abort => simp [hk] at hd
    | append name' =>
      simp only [hk] at hd
      cases hv' : encoding L U tables z' with
      | none => simp [hv'] at hd
      | some v' =>
        cases hrest : fieldsEncoding L U tables fromProperties skip els with
        | none => simp [hv',hrest] at hd
        | some rest =>
          simp only [hv',hrest,Option.some.injEq] at hd
          simp [ih hrest,← hd]

/-- A loop over elements that have an encoding, with the `_id` it adds and returns. -/
theorem closeFields_inserted {fromProperties skip : Bool} {els : List (Key × Zval)} {d : Doc}
    {e : Encoder} (he : e.exceptions = []) (hids : e.generatedOids = 0)
    (hd : fieldsEncoding L U e.protectedTables fromProperties skip els = some d) :
    let sent := if idKey ∈ keys els then d else d ++ [(idName,.oid (L.oidInit 0))]
    (closeFields L (appendAll L U fromProperties skip els) ⟨true,true⟩ e).1 = sent ∧
      (closeFields L (appendAll L U fromProperties skip els) ⟨true,true⟩ e).2.bsonOut =
        some (sent.find? fun f => f.1 = idName).toList ∧
      (closeFields L (appendAll L U fromProperties skip els) ⟨true,true⟩ e).2.exceptions = [] := by
  obtain ⟨hfields,-,hab,hsame⟩ := (append_encoding L U).2 els fromProperties skip e d he hd
  obtain ⟨hfields',hab',hencoder,hid⟩ :=
    appendAll_addId (L:=L) (U:=U) fromProperties skip els true e
  have hid := hid hab
  have hexceptions := hsame.exceptions.trans he
  have hgenerated : (appendAll L U fromProperties skip els false e).encoder.generatedOids = 0 := by
    obtain ⟨fp,heq⟩ := hsame
    rw [heq]
    exact hids
  rw [hfields] at hfields'
  rw [hab] at hab'
  rw [Bool.true_and] at hid
  by_cases hmem : idKey ∈ keys els
  · have hid : (appendAll L U fromProperties skip els true e).addId = false := by
      rw [hid,decide_eq_false (not_not.mpr hmem)]
    simp [closeFields,finishFields,hab',hid,hfields',hencoder,hexceptions,hmem]
  · have hid : (appendAll L U fromProperties skip els true e).addId = true := by
      rw [hid,decide_eq_true hmem]
    simp [closeFields,finishFields,hab',hid,hfields',hencoder,hexceptions,hgenerated,hmem]

/-- A root document is the loop over its table, below the class name. -/
theorem internal_document {z : Zval} (hz : z.IsDocument U) (flags : Flags) {e : Encoder}
    (he : e.exceptions = []) :
    z.isArrayOrObject = true ∧ ∃ fromProperties skip, internal L U z flags e =
      (z.classField ++ (closeFields L (appendAll L U fromProperties skip z.rootTable) flags e).1,
        (closeFields L (appendAll L U fromProperties skip z.rootTable) flags e).2) := by
  cases z with
  | array ht els => exact ⟨rfl,false,false,rfl⟩
  | object ce ht properties returned =>
    refine ⟨rfl,?_⟩
    rw [Zval.IsDocument] at hz
    rw [internal]
    cases hser : ce.isSerializable with
    | true =>
      obtain ⟨harray,-⟩ := (by simpa only [hser,if_true] using hz :
        returned.isArrayOrStdClass = true ∧ _)
      refine ⟨false,ce.isPersistable,?_⟩
      rw [internalObject_serializable hser harray he,appendTable_hashOf harray]
      simp only [Zval.rootTable,hser,if_true,Zval.classField]
    | false =>
      have htype : ce.isType = false := by simpa [hser] using hz
      have hpersistable : ce.isPersistable = false := by
        cases hp : ce.isPersistable with
        | true => simp [ClassEntry.isSerializable_of_isPersistable hp] at hser
        | false => rfl
      refine ⟨true,false,?_⟩
      rw [internalObject_plain hser htype]
      simp [Zval.rootTable,hser,Zval.classField,hpersistable]
  | _ => exact hz.elim

/-- The decoded fields of a root document, below the class name. -/
theorem readBack_restored (hL : L.Lawful) {z : Zval} (hz : z.IsDocument U)
    {els : List (Key × Zval)} (hnames : PersistedNames L els) {d : Doc}
    (haccepts : acceptsAll L d = true) (hnone : U.pclassOf d = none)
    (hfields : materialiseAll L U .default [] [] d = (els.map fun e => (keyName e.1,e.2),[])) :
    acceptsAll L (z.classField ++ d) = true ∧
      materialiseRoot L U .default [] (z.classField ++ d) = z.readBack U els := by
  have hplain : acceptsAll L d = true ∧ materialiseRoot L U .default [] d =
      (.object .stdClass none (Zval.toProptable (symtableOf els)) .null,[]) := by
    refine ⟨haccepts,?_⟩
    have htarget : Typemap.default.rootTarget none = .object := rfl
    simp only [materialiseRoot,hfields,hnone,htarget,Target.apply,
      ofFields_named hnames.nodup hnames.nul,Zval.convertToObject]
  cases z with
  | object ce ht properties returned =>
    cases hp : ce.isPersistable with
    | false => simpa [Zval.classField,Zval.readBack,hp] using hplain
    | true =>
      have hser := ClassEntry.isSerializable_of_isPersistable hp
      have hfound : U.odmClass ce.name = some ce := by
        rw [Zval.IsDocument,if_pos hser] at hz
        exact hz.2 hp
      have hpclass : U.pclassOf (odmField ce::d) = some ce := by
        rw [odmField,Userland.pclassOf,hnone]
        simp [Userland.pclassOfField,hfound]
      have hall : materialiseAll L U .default [] [] (odmField ce::d) =
          ((odmFieldName,.bson (.binary ce.name 0x80))::els.map fun e => (keyName e.1,e.2),[]) := by
        simp [odmField,materialiseAll,materialise,leafValue,Userland.autoloadField,
          Userland.autoload_of_odmClass hfound,hfields]
      have htarget : Typemap.default.rootTarget (some ce) = .unserialize (some ce) := rfl
      simp only [Zval.classField,Zval.readBack,hp,if_true,List.singleton_append]
      refine ⟨odmField_accepts hL.ascii haccepts,?_⟩
      simp only [materialiseRoot,hpclass,htarget,hall,ofFields_persisted hnames,Target.apply,
        Userland.unserializeAs]
  | array => exact hplain
  | _ => exact hz.elim

theorem isStored_find? {els : List (Key × Zval)} (h : AreStored L U els) {key : Key} {z : Zval}
    (hz : find? els key = some z) : IsStored L U z := by
  induction els with
  | nil => cases hz
  | cons e els ih =>
    by_cases hkey : e.1 = key
    · have heq : e.2 = z := by simpa [find?,hkey] using hz
      exact heq ▸ h.1
    · exact ih h.2 (by simpa [find?,hkey] using hz)

theorem find?_withId {els : List (Key × Zval)} {id : Zval}
    (h : ∀ z, find? els idKey = some z → z = id) : find? (withId id els) idKey = some id := by
  unfold withId
  split_ifs with hmem
  · cases hfind : find? els idKey with
    | some z => rw [h z hfind]
    | none => exact absurd hmem ((find?_eq_none els idKey).mp hfind)
  · rw [find?_append,(find?_eq_none els idKey).mpr hmem]
    simp [find?]

/-- The `_id` that a document is stored under. -/
def Zval.sentId (L : Libbson) (z : Zval) : Zval :=
  z.ownId.getD (.bson (.objectId (L.oidToString (L.oidInit 0))))

theorem isStored_sentId (hL : L.Lawful) {z : Zval} (hz : Insertable L U z) :
    IsStored L U (z.sentId L) := by
  unfold Zval.sentId
  cases hid : z.ownId with
  | some id => exact isStored_find? hz.stored hid
  | none => exact (isStored_generated hL _).1

/-- What is sent is the encoding of the elements with their `_id`. -/
theorem sent_eq (hL : L.Lawful) {z : Zval} {fromProperties skip : Bool} {d d' : Doc}
    (hd : fieldsEncoding L U [] fromProperties skip z.rootTable = some d)
    (hd' : fieldsEncoding L U [] fromProperties skip (withId (z.sentId L) z.rootTable) = some d') :
    (if idKey ∈ keys z.rootTable then d else d ++ [(idName,.oid (L.oidInit 0))]) = d' := by
  unfold withId at hd'
  split_ifs at hd' ⊢ with hmem
  · exact Option.some.inj (hd.symm.trans hd')
  · have hid : z.sentId L = .bson (.objectId (L.oidToString (L.oidInit 0))) := by
      rw [Zval.sentId,Zval.ownId,(find?_eq_none _ _).mpr hmem]
      rfl
    have happend := fieldsEncoding_append hd (inspectKey_idKey fromProperties skip)
      (isStored_generated hL (L.oidInit 0)).2
    rw [← hid] at happend
    exact Option.some.inj (happend.symm.trans hd')

/-- The document that is sent, the `_id` that is returned, and what the document is read back
as. -/
theorem zvalToBson_inserted (hL : L.Lawful) {z : Zval} (hz : Insertable L U z) :
    ∃ document v, zvalToBson L U z ⟨true,true⟩ [] = (document,some [(idName,v)],[]) ∧
      encoding L U [] (z.sentId L) = some v ∧ acceptsAll L document = true ∧
      materialiseRoot L U .default [] document =
        z.readBack U (withId (z.sentId L) z.rootTable) := by
  obtain ⟨-,fromProperties,skip,hroot⟩ := internal_document (L:=L) hz.document ⟨true,true⟩
    (e:=Encoder.init []) rfl
  have hnames := hz.names.withId hL (z.sentId L)
  have hstored := areStored_withId hz.stored (isStored_sentId hL hz)
  obtain ⟨d,hd,-,-,-⟩ := hz.names.areRestored hL hz.stored
  obtain ⟨d',hd',haccepts,hnone,hfields⟩ := hnames.areRestored hL hstored
  have hd := hd [] fromProperties skip fun _ => hz.names.odm
  have hd' := hd' [] fromProperties skip fun _ => hnames.odm
  obtain ⟨hsent,hout,hexceptions⟩ := closeFields_inserted (e:=Encoder.init []) rfl rfl hd
  rw [sent_eq hL hd hd'] at hsent hout
  have hown : ∀ id, find? z.rootTable idKey = some id → id = z.sentId L := fun id hid => by
    simp [Zval.sentId,Zval.ownId,hid]
  obtain ⟨v,hv,hfilter⟩ := (filter_fieldsEncoding hnames.keys_nodup hd').1 _ (find?_withId hown)
  have hhead : d'.find? (fun f => f.1 = idName) = some (idName,v) := by
    rw [← List.head?_filter,hfilter,List.head?_cons]
  rw [hhead] at hout
  obtain ⟨haccepts,hreadBack⟩ := readBack_restored hL hz.document hnames haccepts hnone (hfields [])
  refine ⟨z.classField ++ d',v,?_,hv,haccepts,hreadBack⟩
  simp only [zvalToBson,hroot,hsent,hout,hexceptions,Option.toList_some]

/-- `php_phongo_bulkwrite_extract_id` on the `_id` of a document that was sent. -/
theorem extractId_restored {E : BulkOutside} (hL : E.libbson.Lawful) {id : Zval} {v : BsonValue}
    (hid : IsStored E.libbson E.userland id)
    (hv : encoding E.libbson E.userland [] id = some v) :
    E.extractId [(idName,v)] = (id,[]) := by
  obtain ⟨v',hv',ht,ha,-,hvalue⟩ := ((isStored_restored hL).1 id).1 hid
  obtain rfl : v = v' := Option.some.inj (hv.symm.trans (hv' []))
  have hkey : E.libbson.keyValid idName = true := keyValid_lit hL.ascii (by decide +kernel)
  obtain ⟨hok,hchild,heg⟩ := single_restored hkey idName_ne_odm ht ha hvalue
  have hfetch : Options.fetch [(symtable idName.bytes,id)] "_id" = some id := by
    have hkey : symtable idName.bytes = symtable (ascii "_id") := by decide
    simp [Options.fetch,hkey,find?]
  simp only [BulkOutside.extractId,hok,hchild,heg,if_true,hfetch,Option.getD_some]

/-- `insert()` returns the `_id` of the document it sends, the document's own or a new one, and
the document is read back with its elements and that `_id`. Libmongoc alone can refuse it. -/
theorem BulkOutside.insert_readBack (E : BulkOutside) (hL : E.libbson.Lawful) (z : Zval)
    (hz : Insertable E.libbson E.userland z) (b : BulkWrite) :
    ∃ document : Doc,
      (∀ e, E.refuses b.bulk (.insert document) = some e → E.insert z b = ⟨b,.null,[e]⟩) ∧
      (E.refuses b.bulk (.insert document) = none →
        E.insert z b = ⟨b.append (.insert document),z.sentId E.libbson,[]⟩) ∧
      let decoded := bsonToZvalEx E.libbson E.userland (.read document true) BsonState.init []
      decoded.ok = true ∧ (decoded.state.zchild,decoded.exceptions) =
        z.readBack E.userland (withId (z.sentId E.libbson) z.rootTable) := by
  obtain ⟨document,v,hsent,hv,haccepts,hroot⟩ := zvalToBson_inserted hL hz
  obtain ⟨hz',-⟩ := internal_document (L:=E.libbson) hz.document .none (e:=Encoder.init []) rfl
  have hid := extractId_restored hL (isStored_sentId hL hz) hv
  obtain ⟨hok,hchild,heg⟩ := bsonToZvalEx_fresh (U:=E.userland) haccepts Typemap.default []
  refine ⟨document,fun e he => ?_,fun hnone => ?_,hok,?_⟩
  · simp [insert,hz',hsent,add,he]
  · simp [insert,hz',hsent,add,hnone,hid]
  · exact (Prod.ext hchild heg).trans hroot

end

/-- A person with a list of friends, who is given an `_id`. -/
theorem BulkOutside.insert_readBack_person :
    let E : BulkOutside := ⟨.ascii,.persisting .person,.userland 0,fun _ _ => none⟩
    let friends : List (Key × Zval) :=
      [(.int 0,.object .stdClass none [(.str (ascii "n"),.long 5)] .null),(.int 1,.null)]
    let els : List (Key × Zval) :=
      [(.str (ascii "name"),.string (ascii "Ada")),(.str (ascii "friends"),.array none friends)]
    let z := Zval.object .person none [] (.array none els)
    ∃ document : Doc,
      E.insert z (BulkWrite.construct none) =
        ⟨(BulkWrite.construct none).append (.insert document),z.sentId .ascii,[]⟩ ∧
      let decoded := bsonToZvalEx .ascii (.persisting .person) (.read document true)
        BsonState.init []
      decoded.ok = true ∧ (decoded.state.zchild,decoded.exceptions) =
        (.object .person none (Zval.toProptable (els ++ [(idKey,z.sentId .ascii)]))
          (.array none (els ++ [(idKey,z.sentId .ascii)])),[]) := by
  have hplain : DecodedProperties .ascii (.persisting .person) [(.str (ascii "n"),.long 5)] :=
    ⟨by decide,by simp; exact ⟨.lit "n",rfl,by decide,ignores_of_ne (by decide) _⟩⟩
  have hstored : AreStored .ascii (.persisting .person)
      [(.str (ascii "name"),.string (ascii "Ada")),(.str (ascii "friends"),.array none
        [(.int 0,.object .stdClass none [(.str (ascii "n"),.long 5)] .null),(.int 1,.null)])] :=
    ⟨(by decide : Libbson.ascii.utf8Validate (ascii "Ada") true = true),⟨rfl,by decide,
      ⟨rfl,Or.inl ⟨rfl,rfl,hplain,trivial,trivial⟩⟩,trivial,trivial⟩,trivial⟩
  have hnames : ∀ z z', PersistedNames .ascii [(.str (ascii "name"),z),(.str (ascii "friends"),z')] :=
    fun z z' => ⟨by simp; decide,by simp; decide,by simp; decide,by simp; decide⟩
  obtain ⟨document,-,hinsert,hok,hread⟩ := BulkOutside.insert_readBack
    ⟨.ascii,.persisting .person,.userland 0,fun _ _ => none⟩ Libbson.ascii_lawful
    (.object .person none [] (.array none _))
    ⟨⟨rfl,fun _ => by decide⟩,hnames _ _,hstored⟩ (BulkWrite.construct none)
  exact ⟨document,hinsert rfl,hok,hread⟩

end Phongo
