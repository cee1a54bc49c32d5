import Phongo.Bson.Reencoding
import Phongo.Bson.Stop
import Phongo.Error.Labels
import Phongo.Manager.Options

/-! `MongoDB\Driver\WriteResult`: what its methods make of the reply to a bulk write. -/
namespace Phongo
open OrderedTable

structure ResultOutside where
  libbson : Libbson
  userland : Userland
  /-- `convert_to_long`, and what the conversion throws -/
  convertToLong : Zval → Int64 × List ℕ

/-- `php_phongo_writeerror_t`; the message and the info of an error may be missing. -/
structure WriteError where
  code : Int32
  index : Int32
  message : Option Bytes
  info : Option Zval

/-- `php_phongo_writeconcernerror_t` -/
structure WriteConcernError where
  code : Int32
  message : Option Bytes
  info : Option Zval

/-- `bson_iter_init_find` under the check `BSON_ITER_HOLDS_INT32` -/
def findInt32 (key : String) (d : Doc) : Option Int32 :=
  match iterFind (CString.lit key) d with
  | some (.int32 n) => some n
  | _ => none

/-- `bson_iter_init_find` under the check `BSON_ITER_HOLDS_UTF8` -/
def findUtf8 (key : String) (d : Doc) : Option Bytes :=
  match iterFind (CString.lit key) d with
  | some (.utf8 s) => some s
  | _ => none

/-- `bson_iter_init_find` under the check `BSON_ITER_HOLDS_DOCUMENT` -/
def findDocument (key : String) (d : Doc) : Option Doc :=
  match iterFind (CString.lit key) d with
  | some (.document child) => some child
  | _ => none

/-- `bson_iter_init_find` under the check `BSON_ITER_HOLDS_ARRAY` -/
def findArray (key : String) (d : Doc) : Option Doc :=
  match iterFind (CString.lit key) d with
  | some (.array child) => some child
  | _ => none

/-- A value under the check `BSON_ITER_HOLDS_DOCUMENT` -/
def BsonValue.document? : BsonValue → Option Doc
  | .document d => some d
  | _ => none

/-- A loop over an array in the reply that passes over everything but documents. -/
def eachDocument {σ : Type} (body : σ → Doc → σ) (s : σ) : Doc → σ
  | [] => s
  | (_,v)::d =>
    if v.endsIteration then s
    else
      match v.document? with
      | some child => eachDocument body (body s child) d
      | none => eachDocument body s d

def firstDocument : Doc → Option Doc
  | [] => none
  | (_,v)::d =>
    if v.endsIteration then none
    else
      match v.document? with
      | some child => some child
      | none => firstDocument d

/-- `Z_ARRVAL` -/
def Zval.arrayElements : Zval → Options
  | .array _ els => els
  | _ => []

section
variable (E : ResultOutside)

/-- The "errInfo" of an error, or false where its conversion fails. -/
def ResultOutside.errInfo (bson : Doc) (eg : Pending) : Option (Option Zval) × Pending :=
  match findDocument "errInfo" bson with
  | none => (some none,eg)
  | some info =>
    let r := bsonToZvalEx E.libbson E.userland (.read info true) BsonState.init eg
    (if r.ok then some (some r.state.zchild) else none,r.exceptions)

/-- `phongo_writeerror_init` -/
def ResultOutside.writeerrorInit (bson : Doc) (eg : Pending) : Option WriteError × Pending :=
  let info := E.errInfo bson eg
  (info.1.map fun info =>
    ⟨(findInt32 "code" bson).getD 0,(findInt32 "index" bson).getD 0,findUtf8 "errmsg" bson,info⟩,
    info.2)

/-- `phongo_writeconcernerror_init` -/
def ResultOutside.writeconcernerrorInit (bson : Doc) (eg : Pending) :
    Option WriteConcernError × Pending :=
  let info := E.errInfo bson eg
  (info.1.map fun info => ⟨(findInt32 "code" bson).getD 0,findUtf8 "errmsg" bson,info⟩,info.2)

/-- One round of the loop of `php_phongo_writeresult_get_writeerrors`. -/
def ResultOutside.addWriteError (s : List WriteError × Pending) (bson : Doc) :
    List WriteError × Pending :=
  let error := E.writeerrorInit bson s.2
  (s.1 ++ error.1.toList,error.2)

/-- `php_phongo_writeresult_get_writeerrors` -/
def ResultOutside.getWriteErrors (reply : Doc) (eg : Pending) : List WriteError × Pending :=
  match findArray "writeErrors" reply with
  | some child => eachDocument E.addWriteError ([],eg) child
  | none => ([],eg)

/-- `php_phongo_writeresult_get_writeconcernerror`; no error stands for NULL. -/
def ResultOutside.getWriteConcernError (reply : Doc) (eg : Pending) :
    Option WriteConcernError × Pending :=
  match (findArray "writeConcernErrors" reply).bind firstDocument with
  | some bson => E.writeconcernerrorInit bson eg
  | none => (none,eg)

/-- `php_array_zval_to_long` -/
def ResultOutside.zvalToLong (eg : Pending) : Zval → Int64 × Pending
  | .reference z => ResultOutside.zvalToLong eg z
  | .null => (0,eg)
  | .bool b => (if b then 1 else 0,eg)
  | .long n => (n,eg)
  | z => ((E.convertToLong z).1,if eg.isEmpty then thrownBy (E.convertToLong z).2 else eg)

/-- `php_array_fetchc_long` -/
def ResultOutside.fetchLong (els : Options) (key : String) (eg : Pending) : Int64 × Pending :=
  match els.fetch key with
  | none => (0,eg)
  | some z => E.zvalToLong eg z

/-- The root is an array, where "index" and "_id" are looked up. -/
def upsertedState : BsonState :=
  { BsonState.init with map := { Typemap.default with rootType := .nativeArray } }

/-- One round of the loop of `WriteResult::getUpsertedIds`; nothing where an upsert without "_id"
makes it read through a null pointer. -/
def ResultOutside.addUpsertedId (s : Option (Options × Pending)) (bson : Doc) :
    Option (Options × Pending) :=
  match s with
  | none => none
  | some (ids,eg) =>
    let r := bsonToZvalEx E.libbson E.userland (.read bson true) upsertedState eg
    if r.ok then
      match r.state.zchild.arrayElements.fetch "_id" with
      | none => none
      | some zid =>
        let index := E.fetchLong r.state.zchild.arrayElements "index" r.exceptions
        some (update ids (.int index.1) zid,index.2)
    else some (ids,r.exceptions)

/-- `WriteResult::getUpsertedIds` -/
def ResultOutside.getUpsertedIds (reply : Doc) (eg : Pending) : Option (Options × Pending) :=
  match findArray "upserted" reply with
  | some child => eachDocument E.addUpsertedId (some ([],eg)) child
  | none => some ([],eg)

end

def documents (d : Doc) : List Doc := (iterated d).filterMap fun e => e.2.document?

def documentsAt (key : String) (reply : Doc) : List Doc :=
  ((findArray key reply).map documents).getD []

theorem documents_cons (e : CString × BsonValue) (d : Doc) : documents (e::d) =
    if e.2.endsIteration then [] else e.2.document?.toList ++ documents d := by
  rw [documents,iterated_cons]
  by_cases hend : e.2.endsIteration = true
  · simp [hend]
  · rw [if_neg hend,if_neg hend,documents]
    cases h : e.2.document? with
    | none => simp [h]
    | some child => simp [h]

theorem eachDocument_eq {σ : Type} (body : σ → Doc → σ) (s : σ) (d : Doc) :
    eachDocument body s d = (documents d).foldl body s := by
  induction d generalizing s with
  | nil => rfl
  | cons e d ih =>
    rw [eachDocument,documents_cons]
    by_cases hend : e.2.endsIteration = true
    · simp [hend]
    · cases h : e.2.document? with
      | none => simp [hend,ih]
      | some child => simp [hend,ih]

theorem firstDocument_eq (d : Doc) : firstDocument d = (documents d).head? := by
  induction d with
  | nil => rfl
  | cons e d ih =>
    rw [firstDocument,documents_cons]
    by_cases hend : e.2.endsIteration = true
    · simp [hend]
    · cases h : e.2.document? with
      | none => simp [hend,ih]
      | some child => simp [hend]

section
variable {E : ResultOutside} {reply : Doc}

theorem getWriteErrors_eq (E : ResultOutside) (reply : Doc) (eg : Pending) :
    E.getWriteErrors reply eg =
      (documentsAt "writeErrors" reply).foldl E.addWriteError ([],eg) := by
  unfold ResultOutside.getWriteErrors documentsAt
  cases findArray "writeErrors" reply with
  | none => rfl
  | some child => exact eachDocument_eq E.addWriteError ([],eg) child

theorem getWriteConcernError_eq (E : ResultOutside) (reply : Doc) (eg : Pending) :
    E.getWriteConcernError reply eg =
      (((documentsAt "writeConcernErrors" reply).head?.map
        fun bson => E.writeconcernerrorInit bson eg).getD (none,eg)) := by
  unfold ResultOutside.getWriteConcernError documentsAt
  cases findArray "writeConcernErrors" reply with
  | none => rfl
  | some child =>
    rw [Option.bind_some,Option.map_some,Option.getD_some,firstDocument_eq]
    cases (documents child).head? <;> rfl

theorem getUpsertedIds_eq (E : ResultOutside) (reply : Doc) (eg : Pending) :
    E.getUpsertedIds reply eg =
      (documentsAt "upserted" reply).foldl E.addUpsertedId (some ([],eg)) := by
  unfold ResultOutside.getUpsertedIds documentsAt
  cases findArray "upserted" reply with
  | none => rfl
  | some child => exact eachDocument_eq E.addUpsertedId (some ([],eg)) child

end

section Upserts
variable {L : Libbson} {U : Userland}

theorem find?_map_key {κ κ' α β : Type} [DecidableEq κ] [DecidableEq κ'] {g : κ → κ'}
    (hg : Function.Injective g) (f : κ × α → β) {t : Table κ α} {k : κ} {a : α}
    (h : find? t k = some a) : find? (t.map fun e => (g e.1,f e)) (g k) = some (f (k,a)) := by
  induction t with
  | nil => cases h
  | cons e t ih =>
    obtain ⟨k',a'⟩ := e
    rw [find?] at h
    rw [List.map_cons,find?]
    by_cases hk : k' = k
    · subst hk
      rw [if_pos rfl] at h ⊢
      have ha : a' = a := Option.some.inj h
      rw [ha]
    · rw [if_neg hk] at h
      rw [if_neg fun he => hk (hg he)]
      exact ih h

theorem materialiseAll_map (map : Typemap) (path : List CString) {d : Doc}
    (h : ∀ e ∈ d, (materialise L U map (path ++ [e.1]) [] e.2).2 = [] ∧
      U.autoloadField e.1 e.2 [] = []) :
    materialiseAll L U map path [] d =
      (d.map fun e => (e.1,(materialise L U map (path ++ [e.1]) [] e.2).1),[]) := by
  induction d with
  | nil => rfl
  | cons e d ih =>
    obtain ⟨key,v⟩ := e
    obtain ⟨hv,hloads⟩ := h (key,v) List.mem_cons_self
    have hd := ih fun e he => h e (List.mem_cons_of_mem _ he)
    simp only [materialiseAll,hv,hloads,hd,List.map_cons]

theorem acceptsAll_mem {d : Doc} (h : acceptsAll L d = true) {e : CString × BsonValue}
    (he : e ∈ d) : L.textValid e.2 = true ∧ accepts L e.2 = true := by
  induction d with
  | nil => cases he
  | cons f d ih =>
    obtain ⟨key,v⟩ := f
    simp only [acceptsAll,Bool.and_eq_true] at h
    rcases List.mem_cons.mp he with rfl | he
    · exact ⟨h.1.1.2,h.1.2⟩
    · exact ih h.2 he

theorem classesReturnAll_mem {d : Doc} (h : ClassesReturnAll L U d) {e : CString × BsonValue}
    (he : e ∈ d) : (∀ eg, U.autoloadField e.1 e.2 eg = eg) ∧ ClassesReturn L U e.2 := by
  induction d with
  | nil => cases he
  | cons f d ih =>
    obtain ⟨key,v⟩ := f
    rcases List.mem_cons.mp he with rfl | he
    · exact ⟨h.1,h.2.1⟩
    · exact ih h.2.2 he

/-- The value that decoding makes of an element of the root. -/
def elementValue (L : Libbson) (U : Userland) (e : CString × BsonValue) : Zval :=
  (materialise L U Typemap.default [e.1] [] e.2).1

/-- Encoded again it is the element's value, if encoding keeps that. -/
theorem elementValue_spec (hL : L.Lawful) {e : CString × BsonValue}
    (hc : ClassesReturn L U e.2) (ht : L.textValid e.2 = true) (ha : accepts L e.2 = true) :
    (materialise L U Typemap.default [e.1] [] e.2).2 = [] ∧
      ∃ w, Writes L U (elementValue L U e) w ∧ (Kept L false e.2 → w = e.2) := by
  obtain ⟨z,w,hz,hw⟩ := (exported_spec hL false).1 e.2 hc ht ha [e.1]
  have hz : materialise L U Typemap.default [e.1] [] e.2 = (z,[]) := hz
  refine ⟨by rw [hz],w,?_,hw.kept⟩
  rw [elementValue,hz]
  exact hw.writes

/-- A document without a key twice, as the root of `getUpsertedIds`. -/
theorem decode_upsertedState (hL : L.Lawful) {fields : Doc} (hn : (keys fields).Nodup)
    (hc : ClassesReturnAll L U fields) (ha : acceptsAll L fields = true) :
    let r := bsonToZvalEx L U (.read fields true) upsertedState []
    r.ok = true ∧ r.exceptions = [] ∧ r.state.zchild =
      .array none (fields.map fun e => (symtable e.1.bytes,elementValue L U e)) := by
  intro r
  obtain ⟨hok,hz,heg⟩ := bsonToZvalEx_fresh (U:=U) ha
    { Typemap.default with rootType := .nativeArray } []
  have hall : materialiseAll L U { Typemap.default with rootType := .nativeArray } [] [] fields =
      (fields.map fun e => (e.1,elementValue L U e),[]) := by
    rw [materialiseAll_rootType]
    refine materialiseAll_map Typemap.default [] fun e he => ?_
    obtain ⟨hloads,hreturns⟩ := classesReturnAll_mem hc he
    exact ⟨(elementValue_spec hL hreturns (acceptsAll_mem ha he).1 (acceptsAll_mem ha he).2).1,
      hloads []⟩
  have hkeys : keys (fields.map fun e => (e.1,elementValue L U e)) = keys fields := by
    simp [OrderedTable.keys]
  have hroot : ∀ z eg, (({ Typemap.default with rootType := .nativeArray } :
      Typemap).rootTarget (U.pclassOf fields)).apply U z eg = (z,eg) := fun z eg => by
    cases U.pclassOf fields <;> rfl
  have hroot : materialiseRoot L U { Typemap.default with rootType := .nativeArray } [] fields =
      (ofFields false (fields.map fun e => (e.1,elementValue L U e)),[]) := by
    unfold materialiseRoot
    rw [hall]
    exact hroot _ _
  rw [hroot] at hz heg
  refine ⟨hok,heg,hz.trans ?_⟩
  rw [ofFields_false_eq,updateAll_self _ (hkeys ▸ hn)]
  simp [Function.comp_def]

/-- One upsert in a reply: its index among the operations and the id the server chose. -/
structure IsUpsert (L : Libbson) (U : Userland) (fields : Doc) (index : Int32)
    (id : BsonValue) : Prop where
  nodup : (keys fields).Nodup
  index_eq : find? fields (CString.lit "index") = some (.int32 index)
  id_eq : find? fields (CString.lit "_id") = some id
  accepted : acceptsAll L fields = true
  returns : ClassesReturnAll L U fields

def idFilter (z : Zval) : Zval := .array none [(.str (ascii "_id"),z)]

/-- An entry of the result names an upserted document: a filter made of it is sent with the
server's id. -/
def Identifies (L : Libbson) (U : Userland) (e : Key × Zval) (u : Int32 × BsonValue) : Prop :=
  e.1 = .int u.1.toInt64 ∧ ∃ w,
    (zvalToBson L U (idFilter e.2) .none []).1 = [(CString.lit "_id",w)] ∧
      (zvalToBson L U (idFilter e.2) .none []).2.2 = [] ∧ (Kept L false u.2 → w = u.2)

theorem zvalToBson_idFilter {z : Zval} {w : BsonValue} (h : Writes L U z w) :
    (zvalToBson L U (idFilter z) .none []).1 = [(CString.lit "_id",w)] ∧
      (zvalToBson L U (idFilter z) .none []).2.2 = [] := by
  have hfield : List.Forall₂ (WritesField L U) [(.str (ascii "_id"),z)]
      [(CString.lit "_id",w)] :=
    .cons ⟨(by decide : ascii "_id" = (CString.lit "_id").bytes),h⟩ .nil
  obtain ⟨hd,hsame⟩ := closeFields_writes hfield false (Encoder.init []) rfl rfl
  exact ⟨hd,hsame.exceptions⟩

variable {E : ResultOutside}

theorem IsUpsert.identifies (hL : E.libbson.Lawful) {fields : Doc} {u : Int32 × BsonValue}
    (h : IsUpsert E.libbson E.userland fields u.1 u.2) :
    ∃ e : Key × Zval, Identifies E.libbson E.userland e u ∧
      ∀ ids, E.addUpsertedId (some (ids,[])) fields = some (update ids e.1 e.2,[]) := by
  obtain ⟨hok,heg,hz⟩ := decode_upsertedState hL h.nodup h.returns h.accepted
  have hinj : Function.Injective fun key : CString => symtable key.bytes :=
    fun _ _ he => CString.ext (symtable_injective he)
  have hid := find?_map_key hinj (fun e => elementValue E.libbson E.userland e) h.id_eq
  have hindex := find?_map_key hinj (fun e => elementValue E.libbson E.userland e) h.index_eq
  have hmem := mem_of_find?_eq_some _ _ _ h.id_eq
  obtain ⟨-,w,hw,hkept⟩ := elementValue_spec hL (classesReturnAll_mem h.returns hmem).2
    (acceptsAll_mem h.accepted hmem).1 (acceptsAll_mem h.accepted hmem).2
  refine ⟨(.int u.1.toInt64,elementValue E.libbson E.userland (CString.lit "_id",u.2)),
    ⟨rfl,w,(zvalToBson_idFilter hw).1,(zvalToBson_idFilter hw).2,hkept⟩,fun ids => ?_⟩
  have hfetchId : Options.fetch
      (fields.map fun e => (symtable e.1.bytes,elementValue E.libbson E.userland e)) "_id" =
        some (elementValue E.libbson E.userland (CString.lit "_id",u.2)) := hid
  have hfetchIndex : Options.fetch
      (fields.map fun e => (symtable e.1.bytes,elementValue E.libbson E.userland e)) "index" =
        some (.long u.1.toInt64) := hindex
  simp only [ResultOutside.addUpsertedId,hok,heg,hz,if_true,Zval.arrayElements,hfetchId,
    ResultOutside.fetchLong,hfetchIndex,ResultOutside.zvalToLong]

/-- The loop of `getUpsertedIds`. -/
theorem foldl_addUpsertedId (hL : E.libbson.Lawful) {ds : List Doc}
    {us : List (Int32 × BsonValue)}
    (h : List.Forall₂ (fun fields u => IsUpsert E.libbson E.userland fields u.1 u.2) ds us) :
    ∃ es : Options, List.Forall₂ (Identifies E.libbson E.userland) es us ∧
      ∀ ids, ds.foldl E.addUpsertedId (some (ids,[])) = some (updateAll ids es,[]) := by
  induction h with
  | nil => exact ⟨[],.nil,fun ids => rfl⟩
  | cons hu _ ih =>
    obtain ⟨e,he,hadd⟩ := hu.identifies hL
    obtain ⟨es,hes,hrest⟩ := ih
    exact ⟨e::es,.cons he hes,fun ids => by rw [List.foldl_cons,hadd,hrest]; rfl⟩

theorem Identifies.keys_nodup {es : Options} {us : List (Int32 × BsonValue)}
    (h : List.Forall₂ (Identifies L U) es us) (hn : (us.map Prod.fst).Nodup) :
    (keys es).Nodup := by
  have hkeys : keys es = (us.map Prod.fst).map fun i => Key.int i.toInt64 := by
    clear hn
    induction h with
    | nil => rfl
    | cons he _ ih => rw [keys_cons,he.1,ih]; rfl
  rw [hkeys]
  refine hn.map fun i j hij => ?_
  have hsame : i.toInt64 = j.toInt64 := by injection hij
  have hint := congrArg Int64.toInt hsame
  rw [Int32.toInt_toInt64,Int32.toInt_toInt64] at hint
  exact Int32.toInt_inj.mp hint

end Upserts

section Errors
variable {E : ResultOutside}

/-- The info of an error, if it has one, can be decoded. -/
def InfoDecodes (L : Libbson) (d : Doc) : Bool := (findDocument "errInfo" d).all (acceptsAll L)

/-- A WriteError tells what a document in the reply says; its info was decoded with `eg`
pending. -/
structure Reports (E : ResultOutside) (d : Doc) (e : WriteError) : Prop where
  code : e.code = (findInt32 "code" d).getD 0
  index : e.index = (findInt32 "index" d).getD 0
  message : e.message = findUtf8 "errmsg" d
  info : ∃ eg, e.info = (findDocument "errInfo" d).map fun info =>
    (materialiseRoot E.libbson E.userland .default eg info).1

theorem errInfo_decodes {d : Doc} (h : InfoDecodes E.libbson d = true) (eg : Pending) :
    (E.errInfo d eg).1 = some ((findDocument "errInfo" d).map fun info =>
        (materialiseRoot E.libbson E.userland .default eg info).1) ∧
      (E.userland.Silent → (E.errInfo d eg).2 = eg) := by
  unfold InfoDecodes at h
  unfold ResultOutside.errInfo
  cases hinfo : findDocument "errInfo" d with
  | none => exact ⟨rfl,fun _ => rfl⟩
  | some info =>
    rw [hinfo,Option.all_some] at h
    obtain ⟨hok,hz,heg⟩ := bsonToZvalEx_fresh (U:=E.userland) h Typemap.default eg
    have hok : (bsonToZvalEx E.libbson E.userland (.read info true) BsonState.init eg).ok =
        true := hok
    refine ⟨?_,fun hU => ?_⟩
    · simp only [hok,if_true]
      exact congrArg (fun z => some (some z)) hz
    · exact heg.trans (materialiseRoot_quiet hU.1 hU.2 Typemap.default eg info)

theorem errInfo_fails {d : Doc} (h : InfoDecodes E.libbson d = false) (eg : Pending) :
    (E.errInfo d eg).1 = none ∧ (E.errInfo d eg).2 ≠ [] := by
  unfold InfoDecodes at h
  unfold ResultOutside.errInfo
  cases hinfo : findDocument "errInfo" d with
  | none => simp [hinfo] at h
  | some info =>
    rw [hinfo,Option.all_some] at h
    obtain ⟨hok,heg,-⟩ := bsonToZvalRoot_rejects (U:=E.userland) h true BsonState.init eg
    have hok : (bsonToZvalEx E.libbson E.userland (.read info true) BsonState.init eg).ok =
        false := hok
    exact ⟨by simp [hok],heg⟩

theorem errInfo_pending (d : Doc) {eg : Pending} (h : eg ≠ []) : (E.errInfo d eg).2 ≠ [] := by
  unfold ResultOutside.errInfo
  cases findDocument "errInfo" d with
  | none => exact h
  | some info =>
    exact (bsonToZvalEx_stops E.libbson E.userland info BsonState.init h).2.ne_nil h

theorem addWriteError_decodes {d : Doc} (h : InfoDecodes E.libbson d = true)
    (s : List WriteError × Pending) :
    ∃ e, Reports E d e ∧ (E.addWriteError s d).1 = s.1 ++ [e] := by
  have hinfo := (errInfo_decodes h s.2).1
  refine ⟨⟨(findInt32 "code" d).getD 0,(findInt32 "index" d).getD 0,findUtf8 "errmsg" d,
    (findDocument "errInfo" d).map fun info =>
      (materialiseRoot E.libbson E.userland .default s.2 info).1⟩,⟨rfl,rfl,rfl,s.2,rfl⟩,?_⟩
  simp only [ResultOutside.addWriteError,ResultOutside.writeerrorInit,hinfo,Option.map_some,
    Option.toList_some]

theorem addWriteError_fails {d : Doc} (h : InfoDecodes E.libbson d = false)
    (s : List WriteError × Pending) : (E.addWriteError s d).1 = s.1 := by
  simp [ResultOutside.addWriteError,ResultOutside.writeerrorInit,(errInfo_fails h s.2).1]

theorem pending_addWriteError (s : List WriteError × Pending) (d : Doc) :
    (E.addWriteError s d).2 = (E.errInfo d s.2).2 := rfl

/-- The loop of `php_phongo_writeresult_get_writeerrors`. -/
theorem foldl_addWriteError (ds : List Doc) (s : List WriteError × Pending) :
    ∃ es, List.Forall₂ (Reports E) (ds.filter (InfoDecodes E.libbson)) es ∧
      (ds.foldl E.addWriteError s).1 = s.1 ++ es := by
  induction ds generalizing s with
  | nil => exact ⟨[],.nil,by simp⟩
  | cons d ds ih =>
    obtain ⟨es,hes,hrest⟩ := ih (E.addWriteError s d)
    rw [List.foldl_cons,hrest]
    cases hd : InfoDecodes E.libbson d with
    | true =>
      obtain ⟨e,he,hadd⟩ := addWriteError_decodes hd s
      refine ⟨e::es,?_,by rw [hadd]; simp⟩
      rw [List.filter_cons_of_pos hd]
      exact .cons he hes
    | false =>
      refine ⟨es,?_,by rw [addWriteError_fails hd]⟩
      rw [List.filter_cons_of_neg (by simp [hd])]
      exact hes

theorem pending_foldl (ds : List Doc) (s : List WriteError × Pending)
    (h : s.2 ≠ [] ∨ ∃ d ∈ ds, InfoDecodes E.libbson d = false) :
    (ds.foldl E.addWriteError s).2 ≠ [] := by
  induction ds generalizing s with
  | nil => simpa using h
  | cons d ds ih =>
    rw [List.foldl_cons]
    apply ih
    rcases h with h | ⟨d',hd',hfails⟩
    · exact .inl (errInfo_pending d h)
    · rcases List.mem_cons.mp hd' with rfl | hd'
      · exact .inl (errInfo_fails hfails s.2).2
      · exact .inr ⟨d',hd',hfails⟩

theorem quiet_foldl (hU : E.userland.Silent) {ds : List Doc} (s : List WriteError × Pending)
    (h : ∀ d ∈ ds, InfoDecodes E.libbson d = true) :
    (ds.foldl E.addWriteError s).2 = s.2 := by
  induction ds generalizing s with
  | nil => rfl
  | cons d ds ih =>
    rw [List.foldl_cons,ih _ fun d' hd' => h d' (List.mem_cons_of_mem _ hd'),
      pending_addWriteError]
    exact (errInfo_decodes (h d List.mem_cons_self) s.2).2 hU

end Errors

section
variable {E : ResultOutside}

/-- What a WriteResult says of the ids in a reply to which `ups` were upserted. -/
def ReportsUpserts (E : ResultOutside) (reply : Doc) (ups : List (Int32 × BsonValue)) : Prop :=
  ∃ ids : Options, E.getUpsertedIds reply [] = some (updateAll [] ids,[]) ∧
    List.Forall₂ (Identifies E.libbson E.userland) ids ups ∧
      ((ups.map Prod.fst).Nodup → updateAll [] ids = ids)

/-- What it says of the errors in any reply: all of them in order but those whose info cannot be
decoded, and then an exception is pending. -/
structure ReportsErrors (E : ResultOutside) (reply : Doc) (eg : Pending) : Prop where
  errors : List.Forall₂ (Reports E)
    ((documentsAt "writeErrors" reply).filter (InfoDecodes E.libbson))
    (E.getWriteErrors reply eg).1
  dropped : (∃ d ∈ documentsAt "writeErrors" reply, InfoDecodes E.libbson d = false) →
    (E.getWriteErrors reply eg).2 ≠ []
  quiet : E.userland.Silent →
    (∀ d ∈ documentsAt "writeErrors" reply, InfoDecodes E.libbson d = true) →
      (E.getWriteErrors reply eg).2 = eg
  concern : ((E.getWriteConcernError reply eg).1.isSome ↔
    ∃ d, (documentsAt "writeConcernErrors" reply).head? = some d ∧
      InfoDecodes E.libbson d = true)
  concernDropped : ∀ d, (documentsAt "writeConcernErrors" reply).head? = some d →
    InfoDecodes E.libbson d = false → (E.getWriteConcernError reply eg).2 ≠ []

theorem getWriteConcernError_isSome (reply : Doc) (eg : Pending) :
    (E.getWriteConcernError reply eg).1.isSome ↔
      ∃ d, (documentsAt "writeConcernErrors" reply).head? = some d ∧
        InfoDecodes E.libbson d = true := by
  rw [getWriteConcernError_eq]
  cases (documentsAt "writeConcernErrors" reply).head? with
  | none => simp
  | some d =>
    simp only [Option.map_some,Option.getD_some,ResultOutside.writeconcernerrorInit,
      Option.isSome_map,Option.some.injEq,exists_eq_left']
    cases hd : InfoDecodes E.libbson d with
    | true => simp [(errInfo_decodes hd eg).1]
    | false => simp [(errInfo_fails hd eg).1]

theorem reportsErrors (E : ResultOutside) (reply : Doc) (eg : Pending) :
    ReportsErrors E reply eg := by
  obtain ⟨es,hes,heq⟩ := foldl_addWriteError (E:=E) (documentsAt "writeErrors" reply) ([],eg)
  refine ⟨?_,fun hfails => ?_,fun hU hall => ?_,getWriteConcernError_isSome reply eg,
    fun d hd hfails => ?_⟩
  · rw [getWriteErrors_eq,heq]
    exact hes
  · rw [getWriteErrors_eq]
    exact pending_foldl _ ([],eg) (.inr hfails)
  · rw [getWriteErrors_eq]
    exact quiet_foldl hU ([],eg) hall
  · rw [getWriteConcernError_eq,hd]
    exact (errInfo_fails hfails eg).2

/-- A WriteResult reports the reply: its ids name the upserted documents when they are sent back
to the server, and no error is left out silently. -/
theorem writeResult_reports (E : ResultOutside) (hL : E.libbson.Lawful) (reply : Doc)
    (ups : List (Int32 × BsonValue))
    (hups : List.Forall₂ (fun fields u => IsUpsert E.libbson E.userland fields u.1 u.2)
      (documentsAt "upserted" reply) ups) :
    ReportsUpserts E reply ups ∧ ∀ eg, ReportsErrors E reply eg := by
  obtain ⟨ids,hids,hloop⟩ := foldl_addUpsertedId hL hups
  refine ⟨⟨ids,?_,hids,fun hn => updateAll_self ids (Identifies.keys_nodup hids hn)⟩,
    reportsErrors E reply⟩
  rw [getUpsertedIds_eq]
  exact hloop []

end

/-- Two upserts, one with a document for its id, and an error. -/
def upsertReply : Doc :=
  [(CString.lit "nUpserted",.int32 2),
    (CString.lit "upserted",.array
      [(CString.lit "0",.document [(CString.lit "index",.int32 2),(CString.lit "_id",.int32 7)]),
        (CString.lit "1",.document [(CString.lit "index",.int32 3),
          (CString.lit "_id",.document [(CString.lit "a",.utf8 (ascii "b"))])])]),
    (CString.lit "writeErrors",.array
      [(CString.lit "0",.document [(CString.lit "index",.int32 0),
        (CString.lit "code",.int32 11000),(CString.lit "errmsg",.utf8 (ascii "E11000"))])])]

def ResultOutside.ascii : ResultOutside := ⟨.ascii,.keeping .person,fun _ => (0,[])⟩

theorem writeResult_reports_upserts :
    ReportsUpserts .ascii upsertReply
        [(2,.int32 7),(3,.document [(CString.lit "a",.utf8 (ascii "b"))])] ∧
      ∀ eg, ReportsErrors .ascii upsertReply eg :=
  writeResult_reports .ascii Libbson.ascii_lawful upsertReply _
    (.cons ⟨by decide,rfl,rfl,by decide,fun _ => rfl,trivial,fun _ => rfl,trivial,trivial⟩
      (.cons ⟨by decide,rfl,rfl,by decide,fun _ => rfl,trivial,fun _ => rfl,
        ⟨fun h => (by cases h),fun _ => rfl,trivial,trivial⟩,trivial⟩ .nil))

end Phongo
