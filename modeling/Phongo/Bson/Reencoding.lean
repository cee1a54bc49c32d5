import Mathlib.Tactic.Common
import Phongo.Bson.RoundTrip

/-! Documents that come back when the value made of them is encoded. Decoding makes an object or
an array of an embedded document; an array is encoded as a document only where its keys do not
count up from 0. -/
namespace Phongo
open OrderedTable

/-- `PHONGO_BSON_INIT_STATE`, or with native arrays for embedded documents. -/
def nativeMap : Bool → Typemap
  | false => Typemap.default
  | true => { Typemap.default with documentType := .nativeArray }

/-- The keys count up from `n`. -/
def Numbered (n : ℕ) : List CString → Prop
  | [] => True
  | key::rest => key = keyName (.int (Int64.ofNat n)) ∧ Numbered (n+1) rest

mutual

/-- What encoding keeps of a value: no key twice, the elements of an array counted up, no
document that looks like a list where documents are made arrays; no NUL where libbson takes a
`char*`, no other flags than libbson stores, and no 64-bit integer that fits 32 bits. -/
def Kept (L : Libbson) (native : Bool) : BsonValue → Prop
  | .document d =>
    (keys d).Nodup ∧ (native = true → ¬ Numbered 0 (keys d)) ∧ KeptAll L native d
  | .array d => Numbered 0 (keys d) ∧ KeptAll L native d
  | .code c | .codeWithScope c _ => (0 : UInt8) ∉ c
  | .dbPointer ns _ => (0 : UInt8) ∉ ns
  | .regex _ options => L.regexOptions options = options
  | .int64 n => n > 2147483647 ∨ n < -2147483648
  | _ => True

def KeptAll (L : Libbson) (native : Bool) : List (CString × BsonValue) → Prop
  | [] => True
  | (_,v)::rest => Kept L native v ∧ KeptAll L native rest

end

section Writing
variable (L : Libbson) (U : Userland)

/-- Outside of all tables `z` is encoded as `v`, under any key. -/
def Writes (z : Zval) (v : BsonValue) : Prop :=
  ∀ key (e : Encoder), e.exceptions = [] → e.protectedTables = [] →
    (appendValue L U key z).Yields e [(key,v)]

/-- An entry of a table and the field it is encoded as. -/
def WritesField (e : Key × Zval) (f : CString × BsonValue) : Prop :=
  e.1.toStr = f.1.bytes ∧ Writes L U e.2 f.2

def GivenBack (d : Doc) : Prop :=
  ∀ path, ∃ z, materialise L U .default path [] (.document d) = (z,[]) ∧
    Writes L U z (.document d)

mutual

/-- Classes of the application give back the documents that name them, their autoloader throws
nothing, and neither does what is decoded as the scope of code. -/
def ClassesReturn : BsonValue → Prop
  | .document d => ((U.pclassOf d).isSome → GivenBack L U d) ∧ ClassesReturnAll d
  | .array d => ClassesReturnAll d
  | .codeWithScope _ scope => (materialiseRoot L U .default [] scope).2 = []
  | _ => True

def ClassesReturnAll : List (CString × BsonValue) → Prop
  | [] => True
  | (key,v)::rest =>
    (∀ eg, U.autoloadField key v eg = eg) ∧ ClassesReturn v ∧ ClassesReturnAll rest

end

end Writing

section Tables
variable {L : Libbson} {U : Userland}

theorem Encoder.Same.protectedTables {e e' : Encoder} (h : e.Same e') :
    e'.protectedTables = e.protectedTables := by
  obtain ⟨fp,rfl⟩ := h; rfl

theorem WritesField.key {e : Key × Zval} {f : CString × BsonValue} (h : WritesField L U e f) :
    (0 : UInt8) ∉ e.1.toStr ∧ keyName e.1 = f.1 := by
  have hz : (0 : UInt8) ∉ e.1.toStr := h.1 ▸ f.1.zero_notMem
  exact ⟨hz,CString.ext ((bytes_keyName hz).trans h.1)⟩

theorem appendAll_writes {els : List (Key × Zval)} {d : Doc}
    (h : List.Forall₂ (WritesField L U) els d) (fromProperties : Bool) (e : Encoder)
    (he : e.exceptions = []) (ht : e.protectedTables = []) :
    (appendAll L U fromProperties false els).Yields e d := by
  induction h generalizing e with
  | nil => exact ⟨rfl,rfl,rfl,Encoder.Same.refl e⟩
  | @cons entry f els d hf _ ih =>
    obtain ⟨hz,hname⟩ := hf.key
    have hs := Encoder.Same.writeItem e f.1
    obtain ⟨hd,hsame⟩ := hf.2 f.1 (e.writeItem f.1) (hs.exceptions.trans he)
      (hs.protectedTables.trans ht)
    have hsame' := hs.trans hsame
    obtain ⟨hd',hid,hab,hsame''⟩ := ih (appendValue L U f.1 entry.2 (e.writeItem f.1)).2
      (hsame'.exceptions.trans he) (hsame'.protectedTables.trans ht)
    have hk : inspectKey fromProperties false entry.1 = .append f.1 := by
      rw [inspectKey_append hz,hname]
    rw [appendAll]
    simp only [Loop.Yields,hk,Bool.false_and]
    exact ⟨by rw [hd,hd']; rfl,hid,hab,hsame'.trans hsame''⟩

theorem closeFields_writes {els : List (Key × Zval)} {d : Doc}
    (h : List.Forall₂ (WritesField L U) els d) (fromProperties : Bool) (e : Encoder)
    (he : e.exceptions = []) (ht : e.protectedTables = []) :
    (closeFields L (appendAll L U fromProperties false els) .none).Yields e d :=
  closeFields_yields (appendAll_writes h fromProperties e he ht)

theorem writes_array {els : List (Key × Zval)} {d : Doc}
    (h : List.Forall₂ (WritesField L U) els d) :
    Writes L U (.array none els) (if keysAreIndices 0 els then .array d else .document d) := by
  intro key e he ht
  rw [appendValue]
  by_cases hk : keysAreIndices 0 els = true
  · simp only [hk,if_true]
    exact guarded_yields .array (appendArray_yields key (closeFields_writes h false _ he ht))
  · simp only [hk]
    exact guarded_yields .document (appendDocument_yields key (closeFields_writes h false _ he ht))

theorem writes_object {els : List (Key × Zval)} {d : Doc} (returned : Zval)
    (h : List.Forall₂ (WritesField L U) els d) :
    Writes L U (.object .stdClass none els returned) (.document d) := by
  intro key e he ht
  rw [appendValue]
  exact guarded_yields .document (appendDocument_yields key (closeFields_writes h true _ he ht))

theorem writes_data {z : Zval} (h : IsData L U z) : Writes L U z (toBson L z) :=
  fun key e he _ => (append_data L U).1 z h key e he

theorem Writes.unique {z : Zval} {v v' : BsonValue} (h : Writes L U z v) (h' : Writes L U z v') :
    v = v' := by
  have hd := (h default (Encoder.init []) rfl rfl).1
  have hd' := (h' default (Encoder.init []) rfl rfl).1
  have heq := (List.cons.inj (hd.symm.trans hd')).1
  exact (Prod.mk.inj heq).2

abbrev WrittenAs (L : Libbson) (U : Userland) : List (CString × Zval) → Doc → Prop :=
  List.Forall₂ fun e f => e.1 = f.1 ∧ Writes L U e.2 f.2

theorem WrittenAs.keys_eq {zs : List (CString × Zval)} {ws : Doc} (h : WrittenAs L U zs ws) :
    keys zs = keys ws := by
  induction h with
  | nil => rfl
  | cons hf _ ih => simp [hf.1,ih]

theorem WrittenAs.fields {zs : List (CString × Zval)} {ws : Doc} (h : WrittenAs L U zs ws)
    {toKey : Bytes → Key} (hkey : ∀ s, (toKey s).toStr = s) :
    List.Forall₂ (WritesField L U) (zs.map fun e => (toKey e.1.bytes,e.2)) ws := by
  rw [List.forall₂_map_left_iff]
  exact h.imp fun e f hf => ⟨by rw [hkey,hf.1],hf.2⟩

/-- Elements that are kept when later ones replace earlier ones of the same key. -/
theorem WrittenAs.replaced {zs : List (CString × Zval)} {ws : Doc} (h : WrittenAs L U zs ws) :
    ∃ ws', WrittenAs L U (updateAll [] zs) ws' ∧ (keys ws').Nodup ∧
      ((keys ws).Nodup → updateAll [] zs = zs ∧ ws' = ws) := by
  have hnodup := nodup_updateAll ([] : Table CString Zval) zs List.nodup_nil
  by_cases hn : (keys ws).Nodup
  · have hself := updateAll_self zs (h.keys_eq ▸ hn)
    exact ⟨ws,by rwa [hself],hn,fun _ => ⟨hself,rfl⟩⟩
  · have hmem : ∀ e ∈ zs, ∃ f : CString × BsonValue,
        e.1 = f.1 ∧ Writes L U e.2 f.2 := fun e he => by
      clear hn hnodup
      induction h with
      | nil => cases he
      | cons hf _ ih =>
        rcases List.mem_cons.mp he with rfl | he
        · exact ⟨_,hf⟩
        · exact ih he
    have hex : ∀ els : List (CString × Zval), (∀ e ∈ els, e ∈ zs) →
        ∃ ws', WrittenAs L U els ws' := fun els hels => by
      induction els with
      | nil => exact ⟨[],.nil⟩
      | cons e els ih =>
        obtain ⟨f,hf⟩ := hmem e (hels e List.mem_cons_self)
        obtain ⟨ws',hws⟩ := ih fun e he => hels e (List.mem_cons_of_mem _ he)
        exact ⟨f::ws',.cons hf hws⟩
    obtain ⟨ws',hws⟩ := hex (updateAll [] zs) fun e he =>
      (mem_of_mem_updateAll he).resolve_left List.not_mem_nil
    exact ⟨ws',hws,hws.keys_eq ▸ hnodup,fun hn' => absurd hn' hn⟩

end Tables

section Numbers

theorem keyName_eq_iff {key : CString} {n : Int64} :
    key = keyName (.int n) ↔ symtable key.bytes = .int n := by
  have hb : (keyName (.int n)).bytes = longToStr n := bytes_keyName (zero_notMem_longToStr n)
  constructor
  · rintro rfl
    rw [hb,symtable_longToStr]
  · intro h
    have hs := toStr_symtable key.bytes
    rw [h] at hs
    exact CString.ext (hs.symm.trans hb.symm)

/-- An array looks like a list exactly if its keys were counted up. -/
theorem keysAreIndices_symtable {zs : List (CString × Zval)} (n : ℕ) :
    keysAreIndices n (zs.map fun e => (symtable e.1.bytes,e.2)) = true ↔ Numbered n (keys zs) := by
  induction zs generalizing n with
  | nil => simp [keysAreIndices,Numbered]
  | cons e zs ih =>
    rw [List.map_cons,keys_cons,Numbered,keyName_eq_iff,← ih]
    cases symtable e.1.bytes with
    | int i => simp [keysAreIndices]
    | str s => simp [keysAreIndices]

def numbered (n : ℕ) : Doc → Doc
  | [] => []
  | (_,v)::rest => (keyName (.int (Int64.ofNat n)),v)::numbered (n+1) rest

theorem numbered_eq_iff {ws d : Doc} (h : keys ws = keys d) (n : ℕ) :
    numbered n ws = d ↔ Numbered n (keys d) ∧ ws = d := by
  induction ws generalizing d n with
  | nil =>
    cases d with
    | nil => simp [numbered,Numbered]
    | cons f d => simp at h
  | cons e ws ih =>
    cases d with
    | nil => simp at h
    | cons f d =>
      obtain ⟨hkey,hkeys⟩ := List.cons.inj h
      obtain ⟨key,v⟩ := e
      obtain ⟨key',v'⟩ := f
      obtain rfl : key = key' := hkey
      simp only [numbered,keys_cons,Numbered,List.cons.injEq,Prod.mk.injEq,ih hkeys,true_and]
      constructor
      · rintro ⟨⟨hk,hv⟩,hn,hw⟩
        exact ⟨⟨hk.symm,hn⟩,hv,hw⟩
      · rintro ⟨⟨hk,hn⟩,hv,hw⟩
        exact ⟨⟨hk.symm,hv⟩,hn,hw⟩

theorem WrittenAs.indexedFrom {L : Libbson} {U : Userland} {zs : List (CString × Zval)} {ws : Doc}
    (h : WrittenAs L U zs ws) (n : ℕ) :
    List.Forall₂ (WritesField L U) (indexedFrom n (zs.map Prod.snd)) (numbered n ws) := by
  induction h generalizing n with
  | nil => exact .nil
  | @cons e f _ _ hf _ ih =>
    have hb : (keyName (.int (Int64.ofNat n))).bytes = longToStr (Int64.ofNat n) :=
      bytes_keyName (zero_notMem_longToStr _)
    exact .cons ⟨hb.symm,hf.2⟩ (ih (n+1))

end Numbers

section Leaves
variable {L : Libbson} {U : Userland}

theorem intValue_toInt64 (n : Int32) : intValue n.toInt64 = .int32 n := by
  have hup : ¬ n.toInt64 > 2147483647 := by
    rw [gt_iff_lt,Int64.lt_iff_toInt_lt,Int32.toInt_toInt64]
    exact not_lt.mpr (Int32.toInt_le n)
  have hlo : ¬ n.toInt64 < -2147483648 := by
    rw [Int64.lt_iff_toInt_lt,Int32.toInt_toInt64]
    exact not_lt.mpr (Int32.le_toInt n)
  rw [intValue,if_neg (not_or.mpr ⟨hup,hlo⟩)]
  simp

/-- A value without children comes back exactly if it is kept. -/
theorem toBson_leafValue (hL : L.Lawful) (native : Bool) {v : BsonValue} (hv : v.IsLeaf)
    (ha : accepts L v = true) : toBson L (leafValue L v) = v ↔ Kept L native v := by
  cases v with
  | document | array | codeWithScope => exact hv.elim
  | unsupported | corrupt => simp [accepts] at ha
  | oid o => exact iff_of_true (congrArg BsonValue.oid (hL.oid o)) trivial
  | regex pattern options =>
    simp only [leafValue,toBson,bsonObjectValue,BsonValue.regex.injEq,true_and,Kept]
  | dbPointer ns o =>
    simp only [leafValue,toBson,bsonObjectValue,BsonValue.dbPointer.injEq,hL.oid,and_true,Kept,
      cstr_eq_self_iff]
  | code c =>
    simp only [leafValue,toBson,bsonObjectValue,BsonValue.code.injEq,Kept,cstr_eq_self_iff]
  | int32 n => exact iff_of_true (intValue_toInt64 n) trivial
  | int64 n =>
    simp only [leafValue,toBson,intValue,Kept]
    split
    · rename_i h
      exact iff_of_true rfl h
    · rename_i h
      exact iff_of_false (fun he => by cases he) h
  | _ => exact iff_of_true rfl trivial

theorem writes_leaf (hL : L.Lawful) {v : BsonValue} (hv : v.IsLeaf) (ht : L.textValid v = true)
    (ha : accepts L v = true) : Writes L U (leafValue L v) (toBson L (leafValue L v)) := by
  have hclass : NoPclass U v := by cases v <;> trivial
  have hdecoded := (phpValue_isDecoded (U:=U) hL).1 v hclass ht ha
  rw [phpValue_leaf hv] at hdecoded
  exact writes_data ((isDecoded_spec hL).1 _ hdecoded).1

end Leaves

section Decoding
variable {L : Libbson} {U : Userland}

theorem nativeMap_documentTarget (native : Bool) (path : List CString)
    (pclass : Option ClassEntry) : (nativeMap native).documentTarget path pclass =
      if native = true then .array else withPclass pclass (.none,none) := by
  cases native with
  | false => rfl
  | true => cases pclass <;> rfl

theorem nativeMap_arrayTarget (native : Bool) (path : List CString) :
    (nativeMap native).arrayTarget path = .array := by
  cases native <;> rfl

/-- An embedded document as an array or as an object, duplicate keys resolved. -/
theorem ofFields_false_eq (zs : List (CString × Zval)) : ofFields false zs =
    .array none ((updateAll [] zs).map fun e => (symtable e.1.bytes,e.2)) := by
  have hinj : Function.Injective fun key : CString => symtable key.bytes :=
    fun _ _ h => CString.ext (symtable_injective h)
  have hmap := map_updateAll _ (id : Zval → Zval) hinj [] zs
  simp only [id,List.map_nil] at hmap
  rw [ofFields_false,hmap]

theorem convertToObject_ofFields (zs : List (CString × Zval)) :
    (ofFields false zs).convertToObject = .object .stdClass none
      ((updateAll [] zs).map fun e => (.str e.1.bytes,e.2)) .null := by
  rw [ofFields_false_eq,Zval.convertToObject,Zval.toProptable]
  simp [Function.comp_def]

theorem toStr_str (s : Bytes) : (Key.str s).toStr = s := rfl

/-- Decoding throws nothing and gives `z`. -/
structure Decodes (L : Libbson) (U : Userland) (map : Typemap) (d : Doc) (z : Zval) : Prop where
  ok : (bsonToZvalEx L U (.read d true) { BsonState.init with map := map } []).ok = true
  zchild : (bsonToZvalEx L U (.read d true) { BsonState.init with map := map } []).state.zchild = z
  exceptions :
    (bsonToZvalEx L U (.read d true) { BsonState.init with map := map } []).exceptions = []

/-- A document without a class is decoded to an object of its fields. -/
theorem decodes_object {d : Doc} {zs : List (CString × Zval)} (hclass : U.pclassOf d = none)
    (ha : acceptsAll L d = true) (hzs : materialiseAll L U .default [] [] d = (zs,[])) :
    Decodes L U .default d (ofFields false zs).convertToObject := by
  obtain ⟨hok,hz,heg⟩ := bsonToZvalEx_fresh (U:=U) ha Typemap.default []
  have hroot : materialiseRoot L U .default [] d = ((ofFields false zs).convertToObject,[]) := by
    rw [materialiseRoot,hzs,hclass]
    rfl
  rw [hroot] at hz heg
  exact ⟨hok,hz,heg⟩

theorem zvalToDoc_of_yields {z : Zval} {d : Doc}
    (h : (internal L U z .none).Yields (Encoder.init []) d) :
    zvalToDoc L U z [] = (some d,[]) :=
  Prod.ext (congrArg some h.1) h.2.exceptions

theorem zvalToDoc_object {els : List (Key × Zval)} {d : Doc}
    (h : List.Forall₂ (WritesField L U) els d) :
    zvalToDoc L U (.object .stdClass none els .null) [] = (some d,[]) :=
  zvalToDoc_of_yields (closeFields_writes h true (Encoder.init []) rfl rfl)

/-- What a decoded value is encoded as, and whether that is the value itself. -/
structure Exported (L : Libbson) (U : Userland) (native : Bool) (v : BsonValue) (z : Zval)
    (w : BsonValue) : Prop where
  writes : Writes L U z w
  kept : Kept L native v → w = v
  eq : native = true ∨ NoPclass U v → w = v → Kept L native v

structure ExportedAll (L : Libbson) (U : Userland) (native : Bool) (d : Doc)
    (zs : List (CString × Zval)) (ws : Doc) : Prop where
  written : WrittenAs L U zs ws
  keys : keys ws = keys d
  kept : KeptAll L native d → ws = d
  eq : native = true ∨ NoPclassAll U d → ws = d → KeptAll L native d

theorem ExportedAll.document {native : Bool} {d : Doc} {zs : List (CString × Zval)} {ws : Doc}
    (h : ExportedAll L U native d zs ws) : ∃ ws', WrittenAs L U (updateAll [] zs) ws' ∧
      ((OrderedTable.keys d).Nodup ∧ KeptAll L native d → updateAll [] zs = zs ∧ ws' = d) ∧
      (native = true ∨ NoPclassAll U d → ws' = d →
        (OrderedTable.keys d).Nodup ∧ KeptAll L native d) := by
  obtain ⟨ws',hws,hnodup,hself⟩ := h.written.replaced
  rw [h.keys] at hself
  refine ⟨ws',hws,fun hk => ?_,fun hclass he => ?_⟩
  · exact ⟨(hself hk.1).1,(hself hk.1).2.trans (h.kept hk.2)⟩
  · rw [he] at hnodup
    exact ⟨hnodup,h.eq hclass ((hself hnodup).2.symm.trans he)⟩

theorem exported_document {native : Bool} {d : Doc} {zs : List (CString × Zval)} {ws : Doc}
    (h : ExportedAll L U native d zs ws) (hclass : native = true ∨ U.pclassOf d = none) :
    ∃ w, Exported L U native (.document d)
      (if native = true then ofFields false zs else (ofFields false zs).convertToObject) w := by
  obtain ⟨ws',hws,hkept,heq⟩ := h.document
  have hclasses : native = true ∨ NoPclass U (.document d) → native = true ∨ NoPclassAll U d := id
  cases native with
  | false =>
    refine ⟨.document ws',?_,fun hk => ?_,fun hc he => ?_⟩
    · rw [if_neg Bool.false_ne_true,convertToObject_ofFields]
      exact writes_object .null (hws.fields toStr_str)
    · rw [(hkept ⟨hk.1,hk.2.2⟩).2]
    · obtain ⟨hn,hk⟩ := heq (hclasses hc) (BsonValue.document.inj he)
      exact ⟨hn,(fun h => absurd h Bool.false_ne_true),hk⟩
  | true =>
    have hw := writes_array (hws.fields toStr_symtable)
    rw [← ofFields_false_eq] at hw
    refine ⟨_,hw,fun hk => ?_,fun hc he => ?_⟩
    · obtain ⟨hself,hd⟩ := hkept ⟨hk.1,hk.2.2⟩
      have hlist : ¬ keysAreIndices 0
          ((updateAll [] zs).map fun e => (symtable e.1.bytes,e.2)) = true := by
        rw [keysAreIndices_symtable,hws.keys_eq,hd]
        exact hk.2.1 rfl
      rw [if_neg hlist,hd]
    · split at he
      · cases he
      · rename_i hlist
        have hd := BsonValue.document.inj he
        obtain ⟨hn,hk⟩ := heq (hclasses hc) hd
        rw [keysAreIndices_symtable,hws.keys_eq,hd] at hlist
        exact ⟨hn,fun _ => hlist,hk⟩

theorem exported_array {native : Bool} {d : Doc} {zs : List (CString × Zval)} {ws : Doc}
    (h : ExportedAll L U native d zs ws) :
    Exported L U native (.array d) (ofFields true zs) (.array (numbered 0 ws)) := by
  refine ⟨?_,fun hk => ?_,fun hc he => ?_⟩
  · have hw := writes_array (h.written.indexedFrom 0)
    rw [keysAreIndices_indexedFrom,if_pos rfl] at hw
    rw [ofFields_true]
    exact hw
  · rw [(numbered_eq_iff h.keys 0).mpr ⟨hk.1,h.kept hk.2⟩]
  · obtain ⟨hn,hd⟩ := (numbered_eq_iff h.keys 0).mp (BsonValue.array.inj he)
    exact ⟨hn,h.eq hc hd⟩

/-- Decoding throws nothing, and what is encoded again is the same exactly where it is kept. -/
theorem exported_spec (hL : L.Lawful) (native : Bool) :
    (∀ v, ClassesReturn L U v → L.textValid v = true → accepts L v = true → ∀ path,
      ∃ z w, materialise L U (nativeMap native) path [] v = (z,[]) ∧
        Exported L U native v z w) ∧
    (∀ d, ClassesReturnAll L U d → acceptsAll L d = true → ∀ path,
      ∃ zs ws, materialiseAll L U (nativeMap native) path [] d = (zs,[]) ∧
        ExportedAll L U native d zs ws) := by
  refine BsonValue.induction ?leaf ?document ?array ?scope ?nil ?cons
  case leaf =>
    intro v hv _ ht ha path
    have hiff := toBson_leafValue hL native hv ha
    exact ⟨_,_,materialise_leaf hv _,writes_leaf hL hv ht ha,hiff.mpr,fun _ => hiff.mp⟩
  case document =>
    intro d ih hc _ ha path
    obtain ⟨zs,ws,hz,hall⟩ := ih hc.2 ha path
    by_cases hclass : native = true ∨ U.pclassOf d = none
    · obtain ⟨w,hw⟩ := exported_document hall hclass
      refine ⟨_,w,?_,hw⟩
      rw [materialise,hz,nativeMap_documentTarget]
      cases native with
      | true => rfl
      | false =>
        rw [hclass.resolve_left Bool.false_ne_true]
        rfl
    · obtain ⟨hnative,hsome⟩ := not_or.mp hclass
      obtain rfl : native = false := by simpa using hnative
      obtain ⟨z,hz,hw⟩ := hc.1 (Option.isSome_iff_ne_none.mpr hsome) path
      refine ⟨z,.document d,hz,hw,fun _ => rfl,fun hn _ => ?_⟩
      exact absurd (pclassOf_eq_none (hn.resolve_left hnative)) hsome
  case array =>
    intro d ih hc _ ha path
    obtain ⟨zs,ws,hz,hall⟩ := ih hc ha path
    refine ⟨_,_,?_,exported_array hall⟩
    rw [materialise,hz,nativeMap_arrayTarget]
    rfl
  case scope =>
    intro c s _ hc ht ha path
    have hdecodes : ScopeDecodes L U (.javascript c (some s)) :=
      (bsonToZvalEx_fresh (U:=U) ha Typemap.default []).2.2.trans hc
    have hw : Writes L U (.bson (.javascript c (some s))) (.codeWithScope (cstr c) s) :=
      writes_data (z:=.bson (.javascript c (some s))) hdecodes
    have hiff : BsonValue.codeWithScope (cstr c) s = .codeWithScope c s ↔
        Kept L native (.codeWithScope c s) := by
      simp only [BsonValue.codeWithScope.injEq,and_true,Kept,cstr_eq_self_iff]
    exact ⟨_,_,congrArg (Prod.mk _) hc,hw,hiff.mpr,fun _ => hiff.mp⟩
  case nil =>
    intro _ _ path
    exact ⟨[],[],rfl,.nil,rfl,fun _ => rfl,fun _ _ => trivial⟩
  case cons =>
    intro key v rest ihv ihd hc ha path
    simp only [acceptsAll,Bool.and_eq_true] at ha
    obtain ⟨hloads,hcv,hcd⟩ := hc
    obtain ⟨z,w,hz,hw⟩ := ihv hcv ha.1.1.2 ha.1.2 (path ++ [key])
    obtain ⟨zs,ws,hzs,hws⟩ := ihd hcd ha.2 path
    refine ⟨(key,z)::zs,(key,w)::ws,?_,.cons ⟨rfl,hw.writes⟩ hws.written,?_,?_,?_⟩
    · simp only [materialiseAll,hz,hloads,hzs]
    · simp [hws.keys]
    · intro hk
      rw [hw.kept hk.1,hws.kept hk.2]
    · intro hclass he
      obtain ⟨hv,hrest⟩ := List.cons.inj he
      have hclass' : (native = true ∨ NoPclass U v) ∧ (native = true ∨ NoPclassAll U rest) :=
        ⟨hclass.imp_right fun h => h.2.1,hclass.imp_right fun h => h.2.2⟩
      exact ⟨hw.eq hclass'.1 (Prod.mk.inj hv).2,hws.eq hclass'.2 hrest⟩

theorem classesReturn_of_noPclass (L : Libbson) (U : Userland) :
    (∀ v, NoPclass U v → ClassesReturn L U v) ∧ ∀ d, NoPclassAll U d → ClassesReturnAll L U d := by
  refine BsonValue.induction ?leaf ?document ?array ?scope ?nil ?cons
  case leaf =>
    intro v hv _
    cases v <;> trivial
  case document =>
    intro d ih h
    refine ⟨fun hsome => ?_,ih h⟩
    rw [pclassOf_eq_none h] at hsome
    cases hsome
  case array =>
    intro d ih h
    exact ih h
  case scope =>
    intro c s _ h
    exact congrArg Prod.snd (materialiseRoot_noPclass h [])
  case nil => exact fun _ => trivial
  case cons =>
    intro key v rest ihv ihd h
    exact ⟨h.1.loads,ihv h.2.1,ihd h.2.2⟩

end Decoding
end Phongo
