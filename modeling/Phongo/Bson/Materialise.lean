import Mathlib.Tactic.Common
import Phongo.Bson.Decode

/-! What decoding means: each compound value takes the target its typemap gives for the chain
of keys that leads to it. No stack, no copied typemap and no scratch state occur here; the
visitors are shown to compute this. -/
namespace Phongo
open OrderedTable

/-- What becomes of the array that holds the elements of a compound value. -/
inductive Target
  | array
  | object
  | unserialize (ce : Option ClassEntry)
  deriving DecidableEq

def Target.apply (U : Userland) : Target → Zval → Pending → Zval × Pending
  | .array, z, eg => (z,eg)
  | .object, z, eg => (z.convertToObject,eg)
  | .unserialize ce, z, eg => U.unserializeAs ce z eg

/-- A typemap type with its class; `unset` is what NONE stands for. -/
def TypemapType.target (unset : Target) (ce : Option ClassEntry) : TypemapType → Target
  | .none => unset
  | .nativeArray => .array
  | .nativeObject => .object
  | .class => .unserialize ce

/-- The entry's type and class where it has a type, otherwise `t`. -/
def FieldPathMapElement.override (entry : Option FieldPathMapElement)
    (t : TypemapType × Option ClassEntry) : TypemapType × Option ClassEntry :=
  match entry with
  | none => t
  | some m => if m.nodeType = .none then t else
      (m.nodeType,if m.nodeType = .class then m.nodeCe else t.2)

/-- A class found in `__pclass` replaces an unset type and any named class. -/
def withPclass (pclass : Option ClassEntry) (t : TypemapType × Option ClassEntry) : Target :=
  match pclass with
  | none => t.1.target .object t.2
  | some ce => t.1.target (.unserialize (some ce)) (some ce)

namespace Typemap

def documentTarget (map : Typemap) (path : List CString) (pclass : Option ClassEntry) : Target :=
  withPclass pclass (FieldPathMapElement.override (map.entryAt path) (map.documentType,map.document))

def arrayTarget (map : Typemap) (path : List CString) : Target :=
  let t := FieldPathMapElement.override (map.entryAt path) (map.arrayType,map.array)
  t.1.target .array t.2

def rootTarget (map : Typemap) (pclass : Option ClassEntry) : Target :=
  withPclass pclass (map.rootType,map.root)

end Typemap

def Userland.pclassOfField (U : Userland) (key : CString) : BsonValue → Option ClassEntry
  | .binary subtype data =>
    if subtype = 0x80 ∧ key = odmFieldName then U.odmClass data else none
  | _ => none

def Userland.autoloadField (U : Userland) (key : CString) (v : BsonValue) (eg : Pending) : Pending :=
  match v with
  | .binary subtype data =>
    if subtype = 0x80 ∧ key = odmFieldName then U.autoload data eg else eg
  | _ => eg

/-- The element provides no usable class, and looking for one throws nothing. -/
structure Userland.Ignores (U : Userland) (key : CString) (v : BsonValue) : Prop where
  unset : U.pclassOfField key v = none
  loads : ∀ eg, U.autoloadField key v eg = eg

/-- The usable class of a document: that of its last `__pclass` element with one. -/
def Userland.pclassOf (U : Userland) : Doc → Option ClassEntry
  | [] => none
  | (key,value)::rest => (U.pclassOf rest).or (U.pclassOfField key value)

mutual

/-- Documents that `bson_iter_visit_all` can visit to the end at every level. -/
def accepts (L : Libbson) : BsonValue → Bool
  | .document d | .array d | .codeWithScope _ d => acceptsAll L d
  | .unsupported _ | .corrupt => false
  | _ => true

def acceptsAll (L : Libbson) : List (CString × BsonValue) → Bool
  | [] => true
  | (key,value)::rest =>
    L.keyValid key && L.textValid value && accepts L value && acceptsAll L rest

end

def addField (isArray : Bool) (z : Zval) (e : CString × Zval) : Zval :=
  if isArray then z.addNextIndex e.2 else z.addAssoc e.1 e.2

def ofFields (isArray : Bool) (zs : List (CString × Zval)) : Zval :=
  zs.foldl (addField isArray) (.array none [])

def indexedFrom (n : ℕ) : List Zval → List (Key × Zval)
  | [] => []
  | z::zs => (.int (Int64.ofNat n),z)::indexedFrom (n+1) zs

def leafValue (L : Libbson) : BsonValue → Zval
  | .double bits => .double bits
  | .utf8 s => .string s
  | .binary subtype data => .bson (.binary data subtype)
  | .undefined => .bson .undefined
  | .oid o => .bson (.objectId (L.oidToString o))
  | .bool b => .bool b
  | .dateTime ms => .bson (.utcDateTime ms)
  | .regex pattern options => .bson (.regex pattern options)
  | .dbPointer ns o => .bson (.dbPointer ns (L.oidToString o))
  | .code c => .bson (.javascript c none)
  | .symbol s => .bson (.symbol s)
  | .int32 n => .long n.toInt64
  | .timestamp t i => .bson (.timestamp t i)
  | .int64 n => .long n
  | .decimal128 high low => .bson (.decimal128 high low)
  | .maxKey => .bson .maxKey
  | .minKey => .bson .minKey
  | _ => .null

mutual

/-- The PHP value at `path`, and the exceptions pending after it. A scope is decoded as a
root of its own. -/
def materialise (L : Libbson) (U : Userland) (map : Typemap) (path : List CString)
    (eg : Pending) : BsonValue → Zval × Pending
  | .document d =>
    let fields := materialiseAll L U map path eg d
    (map.documentTarget path (U.pclassOf d)).apply U (ofFields false fields.1) fields.2
  | .array d =>
    let fields := materialiseAll L U map path eg d
    (map.arrayTarget path).apply U (ofFields true fields.1) fields.2
  | .codeWithScope c scope =>
    let fields := materialiseAll L U Typemap.default [] eg scope
    let root :=
      (Typemap.default.rootTarget (U.pclassOf scope)).apply U (ofFields false fields.1) fields.2
    (.bson (.javascript c (some scope)),root.2)
  | v => (leafValue L v,eg)

def materialiseAll (L : Libbson) (U : Userland) (map : Typemap) (path : List CString)
    (eg : Pending) : List (CString × BsonValue) → List (CString × Zval) × Pending
  | [] => ([],eg)
  | (key,value)::rest =>
    let z := materialise L U map (path ++ [key]) eg value
    let zs := materialiseAll L U map path (U.autoloadField key value z.2) rest
    ((key,z.1)::zs.1,zs.2)

end

def materialiseRoot (L : Libbson) (U : Userland) (map : Typemap) (eg : Pending) (d : Doc) :
    Zval × Pending :=
  let fields := materialiseAll L U map [] eg d
  (map.rootTarget (U.pclassOf d)).apply U (ofFields false fields.1) fields.2

mutual

/-- The elements below `path` in the order of visiting, each with its ancestors' keys. -/
def visits (path : List CString) : BsonValue → List (List CString × CString)
  | .document d | .array d => visitsAll path d
  | _ => []

def visitsAll (path : List CString) :
    List (CString × BsonValue) → List (List CString × CString)
  | [] => []
  | (key,value)::rest => (path,key)::visits (path ++ [key]) value ++ visitsAll path rest

end

section Refinement
variable {L : Libbson} {U : Userland}

namespace BsonState

/-- The successive additions of `zs`. -/
def addAll (state : BsonState) (zs : List (CString × Zval)) : BsonState :=
  zs.foldl (fun s e => s.add e.1 e.2) state

/-- A class found in the elements visited replaces an earlier one. -/
def found (state : BsonState) (pclass : Option ClassEntry) : BsonState :=
  { state with odm := pclass.or state.odm }

@[simp] theorem add_map (s : BsonState) (k : CString) (z : Zval) : (s.add k z).map = s.map := rfl
@[simp] theorem add_odm (s : BsonState) (k : CString) (z : Zval) : (s.add k z).odm = s.odm := rfl
@[simp] theorem found_odm (s : BsonState) (c : Option ClassEntry) :
    (s.found c).odm = c.or s.odm := rfl
@[simp] theorem found_map (s : BsonState) (c : Option ClassEntry) : (s.found c).map = s.map := rfl
@[simp] theorem found_none (s : BsonState) : s.found none = s := rfl

theorem addAll_found (s : BsonState) (c : Option ClassEntry) (zs : List (CString × Zval)) :
    (s.found c).addAll zs = (s.addAll zs).found c := by
  induction zs generalizing s with
  | nil => rfl
  | cons e zs ih => exact ih (s.add e.1 e.2)

theorem found_found (s : BsonState) (c c' : Option ClassEntry) :
    (s.found c).found c' = s.found (c'.or c) := by
  simp [found,Option.or_assoc]

theorem addAll_eq (s : BsonState) (zs : List (CString × Zval)) :
    s.addAll zs =
      { s with zchild := zs.foldl (addField s.isVisitingArray) s.zchild } := by
  induction zs generalizing s with
  | nil => rfl
  | cons e zs ih => exact ih (s.add e.1 e.2)

end BsonState

/-- The decoder stands at `path` with `eg` pending and `trace` recorded. -/
structure Decoder.At (dec : Decoder) (path : List CString) (eg : Pending)
    (trace : List (List CString × CString)) : Prop where
  holds : dec.fieldPath.Holds path
  exceptions : dec.exceptions = eg
  trace : dec.trace = trace

/-- A visit that ran to its end in the given state. -/
structure Visited.Finished (r : Visited) (state : BsonState) (path : List CString)
    (eg : Pending) (trace : List (List CString × CString)) : Prop where
  result : r.result = .finished
  state : r.state = state
  decoder : r.decoder.At path eg trace

theorem handleFieldPathEntry_eq (map : Typemap) {fp : FieldPath} {path : List CString}
    (h : fp.Holds path) (t : TypemapType × Option ClassEntry) :
    handleFieldPathEntryForCompoundType map fp t =
      FieldPathMapElement.override (map.entryAt path) t := by
  rw [handleFieldPathEntryForCompoundType,mapFindFieldPathEntry_eq map h]
  cases map.entryAt path with
  | none => rfl
  | some m => cases hm : m.nodeType <;> simp [FieldPathMapElement.override,hm]

theorem visitScalar_finished (key : CString) (z : Zval) (state : BsonState) (dec : Decoder)
    {path : List CString} (h : dec.fieldPath.Holds path) :
    (visitScalar key z state dec).Finished (state.add key z) path dec.exceptions dec.trace :=
  ⟨rfl,rfl,h.writeItem key,rfl,rfl⟩

theorem visitBinary_eq (key : CString) (subtype : UInt8) (data : Bytes) (state : BsonState)
    (dec : Decoder) :
    visitBinary U key subtype data state dec =
      visitScalar key (.bson (.binary data subtype))
        (state.found (U.pclassOfField key (.binary subtype data)))
        { dec with exceptions := U.autoloadField key (.binary subtype data) dec.exceptions } := by
  unfold visitBinary Userland.pclassOfField Userland.autoloadField
  by_cases h : subtype = 0x80 ∧ key = odmFieldName
  · cases hc : U.odmClass data <;> simp [h,hc,BsonState.found]
  · simp [h]

theorem autoloadField_eq_self {key : CString} {v : BsonValue} (h : ∀ s b, v ≠ .binary s b)
    (eg : Pending) : U.autoloadField key v eg = eg := by
  cases v with
  | binary s b => exact absurd rfl (h s b)
  | _ => rfl

theorem ignores_of_ne_binary {key : CString} {v : BsonValue} (h : ∀ s b, v ≠ .binary s b) :
    U.Ignores key v :=
  ⟨by cases v <;> first | rfl | exact absurd rfl (h _ _),autoloadField_eq_self h⟩

theorem ignores_of_ne {key : CString} (h : key ≠ odmFieldName) (v : BsonValue) :
    U.Ignores key v :=
  ⟨by cases v <;> simp [Userland.pclassOfField,h],
    fun eg => by cases v <;> simp [Userland.autoloadField,h]⟩

theorem loads_of_ne {key : CString} (h : key ≠ odmFieldName) (v : BsonValue) (eg : Pending) :
    U.autoloadField key v eg = eg :=
  (ignores_of_ne h v).loads eg

theorem visitField_leaf {v : BsonValue} (hv : v.IsLeaf) (ha : accepts L v = true) (n : ℕ)
    (key : CString) (state : BsonState) (dec : Decoder) {path : List CString}
    (h : dec.fieldPath.Holds path) :
    (visitField L U n key v state dec).Finished
      ((state.add key (leafValue L v)).found (U.pclassOfField key v)) path
      (U.autoloadField key v dec.exceptions) dec.trace := by
  cases v with
  | document | array | codeWithScope => exact hv.elim
  | unsupported | corrupt => simp [accepts] at ha
  | binary subtype data =>
    rw [visitField,visitBinary_eq]
    exact visitScalar_finished key _ _ { dec with exceptions := _ } h
  | _ => exact visitScalar_finished key _ _ dec h

theorem ofFields_eq (map : Typemap) (isArray : Bool) (zs : List (CString × Zval)) :
    (BsonState.addAll ⟨.array none [],map,none,isArray⟩ zs).zchild = ofFields isArray zs := by
  rw [BsonState.addAll_eq]
  rfl

theorem indexedFrom_append (n : ℕ) (zs zs' : List Zval) :
    indexedFrom n (zs ++ zs') = indexedFrom n zs ++ indexedFrom (n + zs.length) zs' := by
  induction zs generalizing n with
  | nil => rfl
  | cons z zs ih =>
    have hn : n + 1 + zs.length = n + (zs.length + 1) := by omega
    simp [indexedFrom,ih,hn]

theorem length_indexedFrom (n : ℕ) (zs : List Zval) : (indexedFrom n zs).length = zs.length := by
  induction zs generalizing n with
  | nil => rfl
  | cons z zs ih => simp [indexedFrom,ih]

/-- A document's elements are written one by one under their symtable keys. -/
theorem ofFields_false (zs : List (CString × Zval)) :
    ofFields false zs =
      .array none (updateAll [] (zs.map fun e => (symtable e.1.bytes,e.2))) := by
  have step : ∀ els : List (Key × Zval), zs.foldl (addField false) (.array none els) =
      .array none (updateAll els (zs.map fun e => (symtable e.1.bytes,e.2))) := by
    induction zs with
    | nil => exact fun els => rfl
    | cons e zs ih => exact fun els => ih _
  exact step []

theorem ofFields_true (zs : List (CString × Zval)) :
    ofFields true zs = .array none (indexedFrom 0 (zs.map Prod.snd)) := by
  have step : ∀ ys : List Zval, zs.foldl (addField true) (.array none (indexedFrom 0 ys)) =
      .array none (indexedFrom 0 (ys ++ zs.map Prod.snd)) := by
    induction zs with
    | nil => intro ys; simp
    | cons e zs ih =>
      intro ys
      have hadd : addField true (.array none (indexedFrom 0 ys)) e =
          .array none (indexedFrom 0 (ys ++ [e.2])) := by
        simp [addField,Zval.addNextIndex,indexedFrom_append,indexedFrom,length_indexedFrom]
      rw [List.foldl_cons,hadd,ih]
      simp
  exact step []

theorem ofFields_eq_array (isArray : Bool) (zs : List (CString × Zval)) :
    ∃ els, ofFields isArray zs = .array none els := by
  cases isArray
  · exact ⟨_,ofFields_false zs⟩
  · exact ⟨_,ofFields_true zs⟩

variable {path : List CString} {zs : List (CString × Zval)} {pclass : Option ClassEntry}
  {eg : Pending} {trace : List (List CString × CString)}

/-- The choice `php_phongo_bson_visit_document` makes for a type and class. -/
theorem finishDocument_eq (t : TypemapType × Option ClassEntry) (z : Zval) :
    finishDocument U (odmType pclass t.1) (pclass.or t.2) z eg =
      (withPclass pclass t).apply U z eg := by
  obtain ⟨type,ce⟩ := t
  cases pclass <;> cases type <;> rfl

theorem finishArray_eq (t : TypemapType × Option ClassEntry) (z : Zval) :
    finishArray U t.1 t.2 z eg = (t.1.target .array t.2).apply U z eg := by
  obtain ⟨type,ce⟩ := t
  cases type <;> rfl

theorem visitDocument_finished {children : Visit} {key : CString} {parent : BsonState}
    {dec : Decoder}
    (h : (children ⟨.array none [],parent.map,none,false⟩ (dec.push key .document)).Finished
      ((BsonState.addAll ⟨.array none [],parent.map,none,false⟩ zs).found pclass)
      (path ++ [key]) eg trace) :
    (visitDocument U key children parent dec).Finished
      (parent.add key ((parent.map.documentTarget (path ++ [key]) pclass).apply U
        (ofFields false zs) eg).1) path
      ((parent.map.documentTarget (path ++ [key]) pclass).apply U (ofFields false zs) eg).2
      trace := by
  obtain ⟨hres,hstate,hholds,heg,htrace⟩ := h
  have hz := ofFields_eq parent.map false zs
  unfold visitDocument
  simp only [hres,if_true,hstate,heg,handleFieldPathEntry_eq _ hholds,BsonState.found_map]
  have hm : (BsonState.addAll ⟨.array none [],parent.map,none,false⟩ zs).map = parent.map := by
    rw [BsonState.addAll_eq]
  have ho : ((BsonState.addAll ⟨.array none [],parent.map,none,false⟩ zs).found pclass).odm =
      pclass := by
    rw [BsonState.addAll_eq]; simp [BsonState.found]
  have hc : ((BsonState.addAll ⟨.array none [],parent.map,none,false⟩ zs).found pclass).zchild =
      ofFields false zs := hz
  simp only [hm,ho,hc,finishDocument_eq]
  exact ⟨rfl,rfl,hholds.pop,rfl,htrace⟩

theorem visitArray_finished {children : Visit} {key : CString} {parent : BsonState}
    {dec : Decoder}
    (h : (children ⟨.array none [],parent.map,none,true⟩ (dec.push key .array)).Finished
      ((BsonState.addAll ⟨.array none [],parent.map,none,true⟩ zs).found pclass)
      (path ++ [key]) eg trace) :
    (visitArray U key children parent dec).Finished
      (parent.add key ((parent.map.arrayTarget (path ++ [key])).apply U (ofFields true zs) eg).1)
      path ((parent.map.arrayTarget (path ++ [key])).apply U (ofFields true zs) eg).2 trace := by
  obtain ⟨hres,hstate,hholds,heg,htrace⟩ := h
  have hm : (BsonState.addAll ⟨.array none [],parent.map,none,true⟩ zs).map = parent.map := by
    rw [BsonState.addAll_eq]
  have hc : ((BsonState.addAll ⟨.array none [],parent.map,none,true⟩ zs).found pclass).zchild =
      ofFields true zs := ofFields_eq parent.map true zs
  unfold visitArray
  simp only [hres,if_true,hstate,heg,handleFieldPathEntry_eq _ hholds,BsonState.found_map,hm,hc,
    finishArray_eq]
  exact ⟨rfl,rfl,hholds.pop,rfl,htrace⟩

/-- `php_phongo_bson_to_zval_ex` on a document whose iteration runs to its end. -/
theorem bsonToZvalRoot_finished {children : Visit} (offset : ℕ → ℕ) {state : BsonState}
    {eg₀ : Pending} (exhausted : Bool) (hs : state.isVisitingArray = false)
    (h : (children { state with zchild := .array none [] } ⟨FieldPath.alloc,eg₀,[]⟩).Finished
      ((BsonState.addAll { state with zchild := .array none [] } zs).found pclass) [] eg trace) :
    let odm := pclass.or state.odm
    let z := (state.map.rootTarget odm).apply U (ofFields false zs) eg
    bsonToZvalRoot U offset children exhausted state eg₀ =
      (⟨exhausted,{ state with
          zchild := z.1
          odm := odm
          map := { state.map with rootType := odmType odm state.map.rootType } },
        if exhausted then z.2 else throwException .unexpectedValue
          "Reading document did not exhaust input buffer" [] z.2⟩,trace) := by
  obtain ⟨hres,hstate,hholds,heg,htrace⟩ := h
  have hf : (BsonState.addAll { state with zchild := .array none [] } zs).found pclass =
      { state with zchild := ofFields false zs, odm := pclass.or state.odm } := by
    rw [BsonState.addAll_eq,hs]
    simp [BsonState.found,ofFields]
  unfold bsonToZvalRoot
  simp only [hres,if_true,hstate,heg,htrace,hf]
  simp only [Typemap.rootTarget,← finishDocument_eq]
  cases exhausted <;> rfl

theorem visitCodewscope_finished {children : Visit} {offset : ℕ → ℕ} {key : CString} {c : Bytes}
    {scope : Doc} {state : BsonState} {dec : Decoder} (h : dec.fieldPath.Holds path)
    (hs : (children { BsonState.init with zchild := .array none [] }
      ⟨FieldPath.alloc,dec.exceptions,[]⟩).Finished
      ((BsonState.addAll { BsonState.init with zchild := .array none [] } zs).found pclass) []
      eg trace) :
    (visitCodewscope U offset key c scope children state dec).Finished
      (state.add key (.bson (.javascript c (some scope)))) path
      ((Typemap.default.rootTarget pclass).apply U (ofFields false zs) eg).2 dec.trace := by
  have hr := bsonToZvalRoot_finished (U:=U) offset true rfl hs
  unfold visitCodewscope
  rw [hr]
  simp only [if_true]
  have ho : pclass.or BsonState.init.odm = pclass := by simp [BsonState.init]
  rw [ho]
  exact visitScalar_finished key _ _ _ h

theorem visits_leaf {v : BsonValue} (h : v.IsLeaf) (path : List CString) : visits path v = [] := by
  cases v <;> first | rfl | exact h.elim

theorem materialise_leaf {v : BsonValue} (h : v.IsLeaf) (map : Typemap) :
    materialise L U map path eg v = (leafValue L v,eg) := by
  cases v <;> first | rfl | exact h.elim

/-- The visitors materialise every accepted value and document, from any state and with the
stack at any path, and leave the stack where it was. -/
theorem visit_finished (L : Libbson) (U : Userland) :
    (∀ v n key state dec path, dec.fieldPath.Holds path → accepts L v = true →
      let z := materialise L U state.map (path ++ [key]) dec.exceptions v
      (visitField L U n key v state dec).Finished
        ((state.add key z.1).found (U.pclassOfField key v)) path (U.autoloadField key v z.2)
        (dec.trace ++ visits (path ++ [key]) v)) ∧
    (∀ d n state dec path, dec.fieldPath.Holds path → acceptsAll L d = true →
      let zs := materialiseAll L U state.map path dec.exceptions d
      (visitAll L U n d state dec).Finished ((state.addAll zs.1).found (U.pclassOf d)) path zs.2
        (dec.trace ++ visitsAll path d)) := by
  refine BsonValue.induction ?leaf ?document ?array ?scope ?nil ?cons
  case leaf =>
    intro v hv n key state dec path h ha
    simp only [materialise_leaf hv,visits_leaf hv,List.append_nil]
    exact visitField_leaf hv ha n key state dec h
  case document =>
    intro d ih n key state dec path h ha
    exact visitDocument_finished (ih 0 _ _ _ (h.push key .document) ha)
  case array =>
    intro d ih n key state dec path h ha
    exact visitArray_finished (ih 0 _ _ _ (h.push key .array) ha)
  case scope =>
    intro c s ih n key state dec path h ha
    have hs := ih 0 { BsonState.init with zchild := .array none [] }
      ⟨FieldPath.alloc,dec.exceptions,[]⟩ [] FieldPath.alloc_holds ha
    simp only [visits,List.append_nil]
    exact visitCodewscope_finished h hs
  case nil =>
    intro n state dec path h _
    exact ⟨rfl,rfl,h,rfl,(List.append_nil _).symm⟩
  case cons =>
    intro key value rest ihv ihd n state dec path h ha
    simp only [acceptsAll,Bool.and_eq_true] at ha
    obtain ⟨⟨hvalid,hv⟩,hrest⟩ := ha
    obtain ⟨hres,hstate,hholds,heg,htrace⟩ := ihv n key state (dec.enterVisitor key) path h hv
    have hr := ihd (n+1) (visitField L U n key value state (dec.enterVisitor key)).state
      (visitField L U n key value state (dec.enterVisitor key)).decoder path hholds hrest
    rw [visitAll]
    simp only [hvalid,Bool.and_self,if_true,hres]
    rw [hstate] at hr ⊢
    simp only [heg,htrace,BsonState.found_map,BsonState.add_map,BsonState.addAll_found,
      BsonState.found_found] at hr
    simpa [visitsAll,materialiseAll,Userland.pclassOf,Decoder.enterVisitor,h.opened,
      BsonState.addAll] using hr

/-- A visit that did not run to its end, having entered visitors as `planned` up to a point. -/
structure Visited.Rejected (r : Visited) (state : BsonState)
    (trace planned : List (List CString × CString)) : Prop where
  result : r.result ≠ .finished
  map : r.state.map = state.map
  odm : state.odm.isSome → r.state.odm.isSome
  isVisitingArray : r.state.isVisitingArray = state.isVisitingArray
  trace : ∃ entered, entered <+: planned ∧ r.decoder.trace = trace ++ entered

/-- No value or document that is not accepted is visited to its end. -/
theorem visit_rejected (L : Libbson) (U : Userland) :
    (∀ v n key state dec path, dec.fieldPath.Holds path → accepts L v = false →
      (visitField L U n key v state dec).Rejected state dec.trace
        (visits (path ++ [key]) v)) ∧
    (∀ d n state dec path, dec.fieldPath.Holds path → acceptsAll L d = false →
      (visitAll L U n d state dec).Rejected state dec.trace (visitsAll path d)) := by
  refine BsonValue.induction ?leaf ?document ?array ?scope ?nil ?cons
  case leaf =>
    intro v hv n key state dec path h ha
    cases v with
    | unsupported typeCode =>
      exact ⟨by simp [visitField],rfl,id,rfl,[],List.nil_prefix,
        by simp [visitField,visitUnsupportedType,Decoder.throw,Decoder.writeItem]⟩
    | corrupt => exact ⟨by simp [visitField],rfl,id,rfl,[],List.nil_prefix,by simp [visitField]⟩
    | document | array | codeWithScope => exact hv.elim
    | _ => simp [accepts] at ha
  case document =>
    intro d ih n key state dec path h ha
    obtain ⟨hres,-,-,-,htrace⟩ := ih 0 ⟨.array none [],state.map,none,false⟩
      (dec.push key .document) _ (h.push key .document) ha
    rw [visitField,visitDocument]
    simp only [hres,if_false]
    exact ⟨by simp,rfl,id,rfl,htrace⟩
  case array =>
    intro d ih n key state dec path h ha
    obtain ⟨hres,-,-,-,htrace⟩ := ih 0 ⟨.array none [],state.map,none,true⟩
      (dec.push key .array) _ (h.push key .array) ha
    rw [visitField,visitArray]
    simp only [hres,if_false]
    exact ⟨by simp,rfl,id,rfl,htrace⟩
  case scope =>
    intro c s ih n key state dec path h ha
    obtain ⟨hres,-,-,-,-⟩ := ih 0 { BsonState.init with zchild := .array none [] }
      ⟨FieldPath.alloc,dec.exceptions,[]⟩ [] FieldPath.alloc_holds ha
    rw [visitField,visitCodewscope,bsonToZvalRoot]
    simp only [hres,if_false]
    exact ⟨by simp,rfl,id,rfl,[],List.nil_prefix,by simp⟩
  case nil =>
    intro n state dec path h ha
    simp [acceptsAll] at ha
  case cons =>
    intro key value rest ihv ihd n state dec path h ha
    rw [visitAll]
    by_cases hvalid : (L.keyValid key && L.textValid value) = true
    · simp only [hvalid,if_true]
      have hopened : (dec.enterVisitor key).trace = dec.trace ++ [(path,key)] := by
        simp [Decoder.enterVisitor,h.opened]
      cases hv : accepts L value with
      | true =>
        -- this element is visited to its end, a later one is not
        obtain ⟨hres,hstate,hholds,heg,htrace⟩ :=
          (visit_finished L U).1 value n key state (dec.enterVisitor key) path h hv
        have hrest : acceptsAll L rest = false := by
          simpa [acceptsAll,hvalid,hv] using ha
        simp only [hres,if_true]
        obtain ⟨hres',hmap,hodm,hvis,entered,hpre,ht⟩ := ihd (n+1)
          (visitField L U n key value state (dec.enterVisitor key)).state _ path hholds hrest
        refine ⟨hres',by rw [hmap,hstate]; rfl,fun ho => hodm ?_,by rw [hvis,hstate]; rfl,
          (path,key)::visits (path ++ [key]) value ++ entered,?_,?_⟩
        · rw [hstate,BsonState.found_odm,BsonState.add_odm,Option.isSome_or,ho,Bool.or_true]
        · simpa [visitsAll] using hpre
        · rw [ht,htrace,hopened]; simp
      | false =>
        obtain ⟨hres,hmap,hodm,hvis,entered,hpre,ht⟩ :=
          ihv n key state (dec.enterVisitor key) path h hv
        simp only [hres,if_false]
        refine ⟨hres,hmap,hodm,hvis,(path,key)::entered,?_,?_⟩
        · rw [visitsAll,List.cons_append]
          exact List.cons_prefix_cons.mpr ⟨rfl,hpre.trans (List.prefix_append _ _)⟩
        · rw [ht,hopened]; simp
    · simp only [hvalid]
      exact ⟨by simp,rfl,id,rfl,[],List.nil_prefix,by simp⟩

/-- Decoding an accepted document into any state. -/
theorem bsonToZvalRoot_accepts {d : Doc} (h : acceptsAll L d = true) (exhausted : Bool)
    (state : BsonState) (hs : state.isVisitingArray = false) (eg : Pending) :
    let fields := materialiseAll L U state.map [] eg d
    let odm := (U.pclassOf d).or state.odm
    let z := (state.map.rootTarget odm).apply U (ofFields false fields.1) fields.2
    bsonToZvalRoot U (L.offset d) (visitAll L U 0 d) exhausted state eg =
      (⟨exhausted,{ state with
          zchild := z.1
          odm := odm
          map := { state.map with rootType := odmType odm state.map.rootType } },
        if exhausted then z.2 else throwException .unexpectedValue
          "Reading document did not exhaust input buffer" [] z.2⟩,visitsAll [] d) :=
  bsonToZvalRoot_finished (L.offset d) exhausted hs
    ((visit_finished L U).2 d 0 { state with zchild := .array none [] } ⟨FieldPath.alloc,eg,[]⟩ []
      FieldPath.alloc_holds h)

theorem bsonToZvalEx_fresh {d : Doc} (h : acceptsAll L d = true) (map : Typemap)
    (eg : Pending) :
    let decoded := bsonToZvalEx L U (.read d true) { BsonState.init with map := map } eg
    decoded.ok = true ∧ decoded.state.zchild = (materialiseRoot L U map eg d).1 ∧
      decoded.exceptions = (materialiseRoot L U map eg d).2 := by
  have hr := bsonToZvalRoot_accepts (U:=U) h true { BsonState.init with map := map } rfl eg
  have ho : (U.pclassOf d).or BsonState.init.odm = U.pclassOf d := by simp [BsonState.init]
  simp only [ho] at hr
  simp only [bsonToZvalEx,hr,materialiseRoot,if_true,and_self]

/-- Decoding fails on every other document, with an exception pending. -/
theorem bsonToZvalRoot_rejects {d : Doc} (h : acceptsAll L d = false) (exhausted : Bool)
    (state : BsonState) (eg : Pending) :
    let r := bsonToZvalRoot U (L.offset d) (visitAll L U 0 d) exhausted state eg
    r.1.ok = false ∧ r.1.exceptions ≠ [] ∧ r.1.state.map = state.map ∧
      (state.odm.isSome → r.1.state.odm.isSome) ∧
      r.1.state.isVisitingArray = state.isVisitingArray ∧ r.2 <+: visitsAll [] d := by
  obtain ⟨hres,hmap,hodm,hvis,entered,hpre,ht⟩ := (visit_rejected L U).2 d 0
    { state with zchild := .array none [] } ⟨FieldPath.alloc,eg,[]⟩ [] FieldPath.alloc_holds h
  unfold bsonToZvalRoot
  simp only [hres,if_false]
  refine ⟨trivial,?_,hmap,hodm,hvis,?_⟩
  · split
    · simp [Decoder.throw,throwException]
    · assumption
  · split
    · simpa [Decoder.throw,ht] using hpre
    · simpa [ht] using hpre

end Refinement

section Quiet
variable {L : Libbson} {U : Userland}

/-- No `bsonUnserialize()` throws. -/
def Userland.Quiet (U : Userland) : Prop := ∀ ce data, (U.bsonUnserialize ce data).2 = []

/-- No autoloader throws. -/
def Userland.Loads (U : Userland) : Prop :=
  ∀ name thrown, U.lookupClass name = .error thrown → thrown = []

theorem Userland.Loads.autoload (h : U.Loads) (name : Bytes) (eg : Pending) :
    U.autoload name eg = eg := by
  unfold Userland.autoload
  cases hl : U.lookupClass name with
  | ok ce => rfl
  | error thrown =>
    rw [h name thrown hl]
    rfl

theorem Userland.Loads.autoloadField (h : U.Loads) (key : CString) (v : BsonValue) (eg : Pending) :
    U.autoloadField key v eg = eg := by
  unfold Userland.autoloadField
  split
  · simp [h.autoload]
  · rfl

/-- Decoding runs no code of the application that throws. -/
def Userland.Silent (U : Userland) : Prop := U.Quiet ∧ U.Loads

theorem Target.apply_quiet (h : U.Quiet) (t : Target) (z : Zval) (eg : Pending) :
    (t.apply U z eg).2 = eg := by
  cases t with
  | array => rfl
  | object => rfl
  | unserialize ce =>
    cases ce with
    | none => rfl
    | some ce =>
      by_cases he : eg = []
      · simp [Target.apply,Userland.unserializeAs,Userland.unserialize,he,h ce z,thrownBy]
      · simp [Target.apply,Userland.unserializeAs,Userland.unserialize,he]

theorem materialise_quiet (h : U.Quiet) (hloads : U.Loads) :
    (∀ v map path eg, (materialise L U map path eg v).2 = eg) ∧
    (∀ d map path eg, (materialiseAll L U map path eg d).2 = eg) := by
  refine BsonValue.induction ?leaf ?document ?array ?scope ?nil ?cons
  case leaf =>
    intro v hv map path eg
    rw [materialise_leaf hv]
  case document | array =>
    intro d ih map path eg
    rw [materialise,Target.apply_quiet h,ih]
  case scope =>
    intro c s ih map path eg
    simp only [materialise,Target.apply_quiet h,ih]
  case nil =>
    intro map path eg
    rfl
  case cons =>
    intro key value rest ihv ihd map path eg
    simp only [materialiseAll,ihv,ihd,hloads.autoloadField]

theorem materialiseRoot_quiet (h : U.Quiet) (hloads : U.Loads) (map : Typemap) (eg : Pending)
    (d : Doc) : (materialiseRoot L U map eg d).2 = eg := by
  rw [materialiseRoot,Target.apply_quiet h,(materialise_quiet h hloads).2]

end Quiet

section Locality
variable (L : Libbson) (U : Userland)

/-- A subtree is materialised by the targets of its own chains of keys alone. -/
theorem materialise_congr (map map' : Typemap) :
    (∀ v path eg, (∀ q, path <+: q → ∀ c, map.documentTarget q c = map'.documentTarget q c) →
      (∀ q, path <+: q → map.arrayTarget q = map'.arrayTarget q) →
      materialise L U map path eg v = materialise L U map' path eg v) ∧
    (∀ d path eg, (∀ q, path <+: q → ∀ c, map.documentTarget q c = map'.documentTarget q c) →
      (∀ q, path <+: q → map.arrayTarget q = map'.arrayTarget q) →
      materialiseAll L U map path eg d = materialiseAll L U map' path eg d) := by
  refine BsonValue.induction ?leaf ?document ?array ?scope ?nil ?cons
  case leaf =>
    intro v hv path eg _ _
    rw [materialise_leaf hv,materialise_leaf hv]
  case document =>
    intro d ih path eg hd ha
    simp only [materialise]
    rw [ih path eg hd ha,hd path (List.prefix_refl _)]
  case array =>
    intro d ih path eg hd ha
    simp only [materialise]
    rw [ih path eg hd ha,ha path (List.prefix_refl _)]
  case scope =>
    intro c s _ path eg _ _
    rfl
  case nil =>
    intro path eg _ _
    rfl
  case cons =>
    intro key value rest ihv ihd path eg hd ha
    have hp : path <+: path ++ [key] := List.prefix_append _ _
    simp only [materialiseAll]
    rw [ihv (path ++ [key]) eg (fun q hq => hd q (hp.trans hq)) (fun q hq => ha q (hp.trans hq)),
      ihd path _ hd ha]

theorem materialiseAll_rootType (map : Typemap) (rootType : TypemapType) (d : Doc)
    (path : List CString) (eg : Pending) :
    materialiseAll L U { map with rootType := rootType } path eg d =
      materialiseAll L U map path eg d :=
  (materialise_congr L U _ map).2 d path eg (fun _ _ _ => rfl) (fun _ _ => rfl)

variable (map : Typemap) (e : FieldPathMapElement) (before after : List FieldPathMapElement)

/-- An entry is not met at a chain of keys it does not match. -/
theorem Typemap.entryAt_insert {path : List CString} (h : ¬ PathMatches e.entry.opened path) :
    ({ map with fieldPaths := before ++ e::after } : Typemap).entryAt path =
      ({ map with fieldPaths := before ++ after } : Typemap).entryAt path := by
  simp [Typemap.entryAt,List.find?_append,h]

theorem Typemap.documentTarget_insert {path : List CString}
    (h : ¬ PathMatches e.entry.opened path) (pclass : Option ClassEntry) :
    ({ map with fieldPaths := before ++ e::after } : Typemap).documentTarget path pclass =
      ({ map with fieldPaths := before ++ after } : Typemap).documentTarget path pclass := by
  rw [Typemap.documentTarget,Typemap.entryAt_insert map e before after h]
  rfl

theorem Typemap.arrayTarget_insert {path : List CString}
    (h : ¬ PathMatches e.entry.opened path) :
    ({ map with fieldPaths := before ++ e::after } : Typemap).arrayTarget path =
      ({ map with fieldPaths := before ++ after } : Typemap).arrayTarget path := by
  rw [Typemap.arrayTarget,Typemap.entryAt_insert map e before after h]
  rfl

end Locality

/-- Decoding materialises every embedded value by the target of its own chain of keys; the
visitors find the stack equal to that chain; and an entry changes only what it matches. -/
theorem bsonToZvalEx_materialises (L : Libbson) (U : Userland) (map : Typemap)
    (odm : Option ClassEntry) (zchild : Zval) (d : Doc) (eg : Pending) :
    let state : BsonState := ⟨zchild,map,odm,false⟩
    let r := bsonToZvalRoot U (L.offset d) (visitAll L U 0 d) true state eg
    let fields := materialiseAll L U map [] eg d
    let root := (map.rootTarget ((U.pclassOf d).or odm)).apply U (ofFields false fields.1) fields.2
    bsonToZvalEx L U (.read d true) state eg = r.1 ∧
    (acceptsAll L d = true → r.1.ok = true ∧ r.1.state.zchild = root.1 ∧
      r.1.exceptions = root.2 ∧ r.2 = visitsAll [] d) ∧
    (acceptsAll L d = false → r.1.ok = false ∧ r.2 <+: visitsAll [] d) ∧
    (∀ e before after v path eg',
      (∀ q, path <+: q → ¬ PathMatches e.entry.opened q) →
      materialise L U { map with fieldPaths := before ++ e::after } path eg' v =
        materialise L U { map with fieldPaths := before ++ after } path eg' v) ∧
    (∀ e before after path pclass, ¬ PathMatches e.entry.opened path →
      ({ map with fieldPaths := before ++ e::after } : Typemap).documentTarget path pclass =
        ({ map with fieldPaths := before ++ after } : Typemap).documentTarget path pclass ∧
      ({ map with fieldPaths := before ++ e::after } : Typemap).arrayTarget path =
        ({ map with fieldPaths := before ++ after } : Typemap).arrayTarget path) := by
  intro state r fields root
  refine ⟨rfl,fun h => ?_,fun h => ?_,?_,?_⟩
  · have hr := bsonToZvalRoot_accepts (U:=U) h true state rfl eg
    have hr' : r = _ := hr
    rw [hr']
    exact ⟨rfl,rfl,rfl,rfl⟩
  · obtain ⟨hok,-,-,-,-,hpre⟩ := bsonToZvalRoot_rejects (U:=U) h true state eg
    exact ⟨hok,hpre⟩
  · intro e before after v path eg' h
    exact (materialise_congr L U _ _).1 v path eg'
      (fun q hq c => Typemap.documentTarget_insert map e before after (h q hq) c)
      (fun q hq => Typemap.arrayTarget_insert map e before after (h q hq))
  · intro e before after path pclass h
    exact ⟨Typemap.documentTarget_insert map e before after h pclass,
      Typemap.arrayTarget_insert map e before after h⟩

end Phongo
