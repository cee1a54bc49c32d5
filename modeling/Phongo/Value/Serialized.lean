import Mathlib.Tactic.Common
import Phongo.Bson.IntWidth
import Phongo.Value.Format

/-! Documents in PHP's serialization format: the value that was decoded from a document is
serialized, unserialized and encoded again. Objects of the driver go through their own methods
on the way, which check more than the decoder does. -/
namespace Phongo
open OrderedTable

section
variable (L : Libbson) (U : Userland)

/-- Decoding the value throws nothing. -/
def DecodesQuietly (v : BsonValue) : Prop := ∀ path, (materialise L U .default path [] v).2 = []

def FieldsQuiet (d : Doc) : Prop :=
  ∀ f ∈ d, DecodesQuietly L U f.2 ∧ ∀ eg, U.autoloadField f.1 f.2 eg = eg

/-- In its place `w` names the class that `v` names. -/
def NamesAs (v w : BsonValue) : Prop := ∀ key, U.pclassOfField key w = U.pclassOfField key v ∧
  ∀ eg, U.autoloadField key w eg = U.autoloadField key v eg

end

section
variable (V : ValueOutside) (exact : Bool)

mutual

/-- What comes back from the format: no key twice, the elements of an array counted up, no
document that looks like a list where documents are made arrays; nothing that an `unserialize`
refuses, which are texts with a NUL and UUIDs of another length; floats and decimal numbers that
are read as they are written, and the options of a regular expression as libbson stores them. A
document that is made an object of a class is up to that class. -/
def Lasts : Bool → BsonValue → Prop
  | native, .document d => native = false ∧ (V.userland.pclassOf d).isSome ∨
      (keys d).Nodup ∧ (native = true → ¬ Numbered 0 (keys d)) ∧ LastsAll native d
  | native, .array d => Numbered 0 (keys d) ∧ LastsAll native d
  | _, .codeWithScope c scope => (0 : UInt8) ∉ c ∧
      ((V.userland.pclassOf scope).isSome ∨ (keys scope).Nodup ∧ LastsAll false scope)
  | _, .code s | _, .symbol s | _, .dbPointer s _ => (0 : UInt8) ∉ s
  | _, .regex _ options => V.libbson.regexOptions options = options
  | _, .double bits => V.readDouble (V.doubleText bits) = some bits
  | _, .binary subtype data => ¬ (Binary.mk data subtype).MislengthedUuid
  | _, .decimal128 high low => V.text.decimal128FromString
      (V.text.decimal128ToString (high,low)) = (true,(high,low))
  | _, .int64 n => exact = true → n > 2147483647 ∨ n < -2147483648
  | _, _ => True

def LastsAll : Bool → List (CString × BsonValue) → Prop
  | _, [] => True
  | native, (_,v)::rest => Lasts native v ∧ LastsAll native rest

end

def RootLasts (d : Doc) : Prop :=
  (V.userland.pclassOf d).isSome ∨ (keys d).Nodup ∧ LastsAll V exact false d

/-- The object made of an embedded document can be serialized, and the one unserialized is
encoded as that document. -/
def ClassRestores (F : SerialFormat) (d : Doc) : Prop :=
  ∀ path, ∃ z z' w, materialise V.libbson V.userland .default path [] (.document d) = (z,[]) ∧
    Regular F z ∧ comesBack F z = some z' ∧ Writes V.libbson V.userland z' (.document w) ∧
    upToAll exact w = upToAll exact d ∧ acceptsAll V.libbson w = true ∧
    DecodesQuietly V.libbson V.userland (.document w)

/-- The same where the document is a root. -/
def RootClassRestores (F : SerialFormat) (d : Doc) : Prop :=
  ∃ z z' w, Decodes V.libbson V.userland .default d z ∧ Regular F z ∧ comesBack F z = some z' ∧
    z'.isArrayOrObject = true ∧ zvalToDoc V.libbson V.userland z' [] = (some w,[]) ∧
    upToAll exact w = upToAll exact d ∧ acceptsAll V.libbson w = true ∧
    (materialiseRoot V.libbson V.userland .default [] w).2 = []

mutual

/-- The part of others: classes of the application restore the documents that name them, and their
autoloader throws nothing. Scopes of code are nested at most so deep, and no array has more
elements than fit a document, whose length is an `int32_t`. -/
def ClassesRestore : ℕ → Bool → BsonValue → Prop
  | depth, native, .document d =>
    (native = false → (V.userland.pclassOf d).isSome → ClassRestores V exact (V.format depth) d) ∧
    (native = true ∨ V.userland.pclassOf d = none → ClassesRestoreAll depth native d)
  | depth, native, .array d => d.length ≤ 2147483647 ∧ ClassesRestoreAll depth native d
  | 0, _, .codeWithScope _ _ => False
  | depth+1, _, .codeWithScope _ scope =>
    ((V.userland.pclassOf scope).isSome → RootClassRestores V exact (V.format depth) scope) ∧
    (V.userland.pclassOf scope = none → ClassesRestoreAll depth false scope)
  | _, _, _ => True

def ClassesRestoreAll : ℕ → Bool → List (CString × BsonValue) → Prop
  | _, _, [] => True
  | depth, native, (key,v)::rest => (∀ eg, V.userland.autoloadField key v eg = eg) ∧
      ClassesRestore depth native v ∧ ClassesRestoreAll depth native rest

end

structure RootClassesRestore (depth : ℕ) (d : Doc) : Prop where
  named : (V.userland.pclassOf d).isSome → RootClassRestores V exact (V.format depth) d
  unnamed : V.userland.pclassOf d = none → ClassesRestoreAll V exact depth false d

end

section
variable (V : ValueOutside) (F : SerialFormat) (exact native : Bool)

/-- `z`, which came back of `v`, is encoded as `w`, which can be decoded. -/
structure Revived (v : BsonValue) (z : Zval) (w : BsonValue) : Prop where
  writes : Writes V.libbson V.userland z w
  textValid : V.libbson.textValid w = true
  accepted : accepts V.libbson w = true
  quiet : native = false → DecodesQuietly V.libbson V.userland w
  names : NamesAs V.userland v w
  eq_iff : upTo exact w = upTo exact v ↔ Lasts V exact native v

structure RevivedAll (d : Doc) (zs : List (CString × Zval)) (ws : Doc) : Prop where
  written : WrittenAs V.libbson V.userland zs ws
  keys : keys ws = keys d
  accepted : acceptsAll V.libbson ws = true
  quiet : native = false → FieldsQuiet V.libbson V.userland ws
  pclassOf : V.userland.pclassOf ws = V.userland.pclassOf d
  eq_iff : upToAll exact ws = upToAll exact d ↔ LastsAll V exact native d

/-- A document is encoded again, and comes back exactly if it lasts. -/
structure RevivedDoc (d ws : Doc) : Prop where
  keys : OrderedTable.keys ws = OrderedTable.keys (updateAll [] d)
  accepted : acceptsAll V.libbson ws = true
  quiet : native = false → FieldsQuiet V.libbson V.userland ws
  unnamed : V.userland.pclassOf d = none → V.userland.pclassOf ws = none
  eq_iff : upToAll exact ws = upToAll exact d ↔
    (OrderedTable.keys d).Nodup ∧ LastsAll V exact native d

/-- `z`, decoded from `v`, can be serialized, and what is unserialized is encoded again. -/
structure Stored (v : BsonValue) (z : Zval) : Prop where
  regular : Regular F z
  revived : ∀ z', comesBack F z = some z' → ∃ w, Revived V exact native v z' w
  lost : comesBack F z = none → ¬ Lasts V exact native v

/-- The same of a root and what is decoded from it. -/
structure RootStored (d : Doc) (z : Zval) : Prop where
  regular : Regular F z
  revived : ∀ z', comesBack F z = some z' → ∃ w, z'.isArrayOrObject = true ∧
    zvalToDoc V.libbson V.userland z' [] = (some w,[]) ∧ acceptsAll V.libbson w = true ∧
    (materialiseRoot V.libbson V.userland .default [] w).2 = [] ∧ (w = [] ↔ d = []) ∧
    (upToAll exact w = upToAll exact d ↔ RootLasts V exact d)
  lost : comesBack F z = none → ¬ RootLasts V exact d

/-- A field and the element decoded from it. -/
structure StoredField (f : CString × BsonValue) (e : CString × Zval) : Prop where
  key : f.1 = e.1
  valid : V.libbson.keyValid f.1 = true
  loads : ∀ eg, V.userland.autoloadField f.1 f.2 eg = eg
  stored : Stored V F exact native f.2 e.2

abbrev StoredAll (d : Doc) (zs : List (CString × Zval)) : Prop :=
  List.Forall₂ (StoredField V F exact native) d zs

def comesBackFields : List (CString × Zval) → Option (List (CString × Zval))
  | [] => some []
  | (key,z)::rest =>
    (comesBack F z).bind fun z => (comesBackFields rest).map fun rest => (key,z)::rest

end

section Quiet
variable {L : Libbson} {U : Userland}

theorem namesAs_rfl (v : BsonValue) : NamesAs U v v := fun _ => ⟨rfl,fun _ => rfl⟩

theorem namesAs_of_ne_binary {v w : BsonValue} (hv : ∀ s b, v ≠ .binary s b)
    (hw : ∀ s b, w ≠ .binary s b) : NamesAs U v w := fun key => by
  have hv' : U.Ignores key v := ignores_of_ne_binary hv
  have hw' : U.Ignores key w := ignores_of_ne_binary hw
  exact ⟨hw'.unset.trans hv'.unset.symm,fun eg => (hw'.loads eg).trans (hv'.loads eg).symm⟩

theorem pclassOf_eq_none_iff {d : Doc} :
    U.pclassOf d = none ↔ ∀ f ∈ d, U.pclassOfField f.1 f.2 = none := by
  induction d with
  | nil => simp [Userland.pclassOf]
  | cons f d ih =>
    obtain ⟨key,v⟩ := f
    rw [Userland.pclassOf,Option.or_eq_none_iff,ih,List.forall_mem_cons,and_comm]

theorem decodesQuietly_leaf {v : BsonValue} (hv : v.IsLeaf) : DecodesQuietly L U v :=
  fun _ => congrArg Prod.snd (materialise_leaf hv _)

theorem FieldsQuiet.materialiseAll {d : Doc} (h : FieldsQuiet L U d) (path : List CString) :
    (materialiseAll L U .default path [] d).2 = [] := by
  induction d with
  | nil => rfl
  | cons f d ih =>
    obtain ⟨key,v⟩ := f
    obtain ⟨⟨hv,hloads⟩,hd⟩ := List.forall_mem_cons.mp h
    simp only [Phongo.materialiseAll,hv (path ++ [key]),hloads]
    exact ih hd

theorem FieldsQuiet.document {d : Doc} (h : FieldsQuiet L U d) (hclass : U.pclassOf d = none) :
    DecodesQuietly L U (.document d) := fun path => by
  rw [materialise,hclass]
  exact h.materialiseAll path

theorem FieldsQuiet.array {d : Doc} (h : FieldsQuiet L U d) : DecodesQuietly L U (.array d) :=
  fun path => by
    rw [materialise]
    exact h.materialiseAll path

theorem FieldsQuiet.numbered {d : Doc} (h : FieldsQuiet L U d) (n : ℕ) :
    FieldsQuiet L U (numbered n d) := by
  induction d generalizing n with
  | nil => exact fun f hf => absurd hf List.not_mem_nil
  | cons f d ih =>
    obtain ⟨⟨hv,-⟩,hd⟩ := List.forall_mem_cons.mp h
    have hkey : U.Ignores (keyName (.int (Int64.ofNat n))) f.2 :=
      ignores_of_ne (keyName_int_ne_odm _) _
    exact List.forall_mem_cons.mpr ⟨⟨hv,hkey.loads⟩,ih hd (n+1)⟩

theorem FieldsQuiet.root {d : Doc} (h : FieldsQuiet L U d) (hclass : U.pclassOf d = none) :
    (materialiseRoot L U .default [] d).2 = [] := by
  rw [materialiseRoot,hclass]
  exact h.materialiseAll []

end Quiet

section Fields
variable {V : ValueOutside} {F : SerialFormat} {exact native : Bool} {d : Doc}
  {zs zs' : List (CString × Zval)}

theorem comesBackAll_map (toKey : CString → Key) (zs : List (CString × Zval)) :
    comesBackAll F (zs.map fun e => (toKey e.1,e.2)) =
      (comesBackFields F zs).map fun zs => zs.map fun e => (toKey e.1,e.2) := by
  induction zs with
  | nil => rfl
  | cons e zs ih =>
    rw [List.map_cons,comesBackAll,ih,comesBackFields]
    cases comesBack F e.2 with
    | none => rfl
    | some z => cases comesBackFields F zs <;> rfl

theorem comesBackAll_indexedFrom (n : ℕ) (zs : List (CString × Zval)) :
    comesBackAll F (indexedFrom n (zs.map Prod.snd)) =
      (comesBackFields F zs).map fun zs => indexedFrom n (zs.map Prod.snd) := by
  induction zs generalizing n with
  | nil => rfl
  | cons e zs ih =>
    rw [List.map_cons,indexedFrom,comesBackAll,ih,comesBackFields]
    cases comesBack F e.2 with
    | none => rfl
    | some z => cases comesBackFields F zs <;> rfl

namespace StoredAll

theorem regular (h : StoredAll V F exact native d zs) : ∀ e ∈ zs, Regular F e.2 := by
  induction h with
  | nil => exact fun e he => absurd he List.not_mem_nil
  | cons hf _ ih => exact List.forall_mem_cons.mpr ⟨hf.stored.regular,ih⟩

/-- The fields that later ones of the same key do not replace. -/
theorem updated (h : StoredAll V F exact native d zs) :
    StoredAll V F exact native (updateAll [] d) (updateAll [] zs) :=
  forall₂_updateAll (fun _ _ hf => hf.key) .nil h

theorem revived (h : StoredAll V F exact native d zs) (hback : comesBackFields F zs = some zs') :
    ∃ ws, RevivedAll V exact native d zs' ws := by
  induction h generalizing zs' with
  | nil =>
    obtain rfl := Option.some.inj hback
    exact ⟨[],.nil,rfl,rfl,(fun _ f hf => absurd hf List.not_mem_nil),rfl,
      iff_of_true rfl trivial⟩
  | @cons f e d zs hf _ ih =>
    obtain ⟨key,v⟩ := f
    obtain ⟨key',z⟩ := e
    obtain rfl : key = key' := hf.key
    obtain ⟨z',hz',hrest⟩ := Option.bind_eq_some_iff.mp hback
    obtain ⟨rest,hback',rfl⟩ := Option.map_eq_some_iff.mp hrest
    obtain ⟨w,hw⟩ := hf.stored.revived z' hz'
    obtain ⟨ws,hws⟩ := ih hback'
    refine ⟨(key,w)::ws,.cons ⟨rfl,hw.writes⟩ hws.written,?_,?_,fun hnative => ?_,?_,?_⟩
    · simp [hws.keys]
    · have hvalid : V.libbson.keyValid key = true := hf.valid
      simp only [acceptsAll,hvalid,hw.textValid,hw.accepted,hws.accepted,Bool.and_self]
    · exact List.forall_mem_cons.mpr ⟨⟨hw.quiet hnative,
        fun eg => ((hw.names key).2 eg).trans (hf.loads eg)⟩,hws.quiet hnative⟩
    · rw [Userland.pclassOf,Userland.pclassOf,hws.pclassOf,(hw.names key).1]
    · rw [upToAll_cons,upToAll_cons,List.cons.injEq,Prod.mk.injEq,hw.eq_iff,hws.eq_iff]
      simp [LastsAll]

theorem lost (h : StoredAll V F exact native d zs) (hback : comesBackFields F zs = none) :
    ¬ LastsAll V exact native d := by
  induction h with
  | nil => cases hback
  | @cons f e d zs hf _ ih =>
    rintro ⟨hv,hrest⟩
    rw [comesBackFields] at hback
    cases hz : comesBack F e.2 with
    | none => exact hf.stored.lost hz hv
    | some z' =>
      rw [hz] at hback
      exact ih (Option.map_eq_none_iff.mp hback) hrest

theorem revivedDoc (h : StoredAll V F exact native d zs)
    (hback : comesBackFields F (updateAll [] zs) = some zs') :
    ∃ ws, WrittenAs V.libbson V.userland zs' ws ∧ RevivedDoc V exact native d ws := by
  obtain ⟨ws,hws⟩ := h.updated.revived hback
  have hnodup : (keys ws).Nodup := hws.keys ▸ nodup_updateAll _ _ List.nodup_nil
  refine ⟨ws,hws.written,hws.keys,hws.accepted,hws.quiet,fun hclass => ?_,?_⟩
  · rw [hws.pclassOf,pclassOf_eq_none_iff]
    intro f hf
    exact pclassOf_eq_none_iff.mp hclass f ((mem_of_mem_updateAll hf).resolve_left List.not_mem_nil)
  constructor
  · intro he
    have hn : (keys d).Nodup := keys_of_upToAll_eq he ▸ hnodup
    have hall := hws.eq_iff
    rw [updateAll_self d hn] at hall
    exact ⟨hn,hall.mp he⟩
  · rintro ⟨hn,hall⟩
    rw [← updateAll_self d hn] at hall
    rw [hws.eq_iff.mpr hall,updateAll_self d hn]

theorem lostDoc (h : StoredAll V F exact native d zs)
    (hback : comesBackFields F (updateAll [] zs) = none) :
    ¬ ((keys d).Nodup ∧ LastsAll V exact native d) := by
  rintro ⟨hn,hall⟩
  refine h.updated.lost hback ?_
  rwa [updateAll_self d hn]

end StoredAll
theorem comesBack_object (zs : List (CString × Zval)) :
    comesBack F (ofFields false zs).convertToObject =
      (comesBackFields F (updateAll [] zs)).map fun zs =>
        .object .stdClass none (zs.map fun e => (.str e.1.bytes,e.2)) .null := by
  rw [convertToObject_ofFields,comesBack_stdClass,comesBackAll_map fun key => .str key.bytes,
    Option.map_map]
  rfl

theorem StoredAll.object (h : StoredAll V F exact native d zs) {z' : Zval}
    (hback : comesBack F (ofFields false zs).convertToObject = some z') :
    ∃ els ws, z' = .object .stdClass none els .null ∧
      List.Forall₂ (WritesField V.libbson V.userland) els ws ∧ RevivedDoc V exact native d ws := by
  obtain ⟨zs',hzs,rfl⟩ := Option.map_eq_some_iff.mp ((comesBack_object zs).symm.trans hback)
  obtain ⟨ws,hws,hdoc⟩ := h.revivedDoc hzs
  exact ⟨_,ws,rfl,hws.fields toStr_str,hdoc⟩

theorem StoredAll.object_lost (h : StoredAll V F exact native d zs)
    (hback : comesBack F (ofFields false zs).convertToObject = none) :
    ¬ ((keys d).Nodup ∧ LastsAll V exact native d) :=
  h.lostDoc (Option.map_eq_none_iff.mp ((comesBack_object zs).symm.trans hback))

theorem keys_map_key {κ κ' α : Type} (toKey : κ → κ') (t : List (κ × α)) :
    keys (t.map fun e => (toKey e.1,e.2)) = (keys t).map toKey := by
  simp [keys]

/-- The table of a document, its keys made one by one. -/
theorem regular_table (h : ∀ e ∈ zs, Regular F e.2) {toKey : CString → Key}
    (hinj : Function.Injective toKey) :
    (keys ((updateAll [] zs).map fun e => (toKey e.1,e.2))).Nodup ∧
      RegularAll F ((updateAll [] zs).map fun e => (toKey e.1,e.2)) := by
  constructor
  · rw [keys_map_key]
    exact (nodup_updateAll ([] : Table CString Zval) zs List.nodup_nil).map hinj
  · rw [regularAll_iff,List.forall_mem_map]
    exact fun e he => h e ((mem_of_mem_updateAll he).resolve_left List.not_mem_nil)

theorem StoredAll.regular_object (h : StoredAll V F exact native d zs) :
    Regular F (ofFields false zs).convertToObject := by
  rw [convertToObject_ofFields]
  have hinj : Function.Injective fun key : CString => Key.str key.bytes :=
    fun _ _ he => CString.ext (Key.str.inj he)
  obtain ⟨hnodup,hall⟩ := regular_table h.regular hinj
  refine ⟨hnodup,fun key hkey => ?_,hall⟩
  rw [keys_map_key fun key : CString => Key.str key.bytes] at hkey
  obtain ⟨name,-,rfl⟩ := List.mem_map.mp hkey
  rfl

theorem StoredAll.stored_object (h : StoredAll V F exact false d zs)
    (hclass : V.userland.pclassOf d = none) :
    Stored V F exact false (.document d) (ofFields false zs).convertToObject := by
  have hiff : Lasts V exact false (.document d) ↔
      (keys d).Nodup ∧ LastsAll V exact false d := by
    simp [Lasts,hclass]
  refine ⟨h.regular_object,fun z' hback => ?_,fun hback => hiff.not.mpr (h.object_lost hback)⟩
  obtain ⟨els,ws,rfl,hels,hdoc⟩ := h.object hback
  refine ⟨.document ws,writes_object .null hels,rfl,hdoc.accepted,
    fun hnative => (hdoc.quiet hnative).document (hdoc.unnamed hclass),
    namesAs_of_ne_binary (fun _ _ => BsonValue.noConfusion) fun _ _ => BsonValue.noConfusion,?_⟩
  rw [upTo_document,upTo_document,BsonValue.document.injEq,hdoc.eq_iff,hiff]

/-- An object of a class that restores it. -/
theorem ClassRestores.stored (h : ClassRestores V exact F d) (path : List CString)
    (hclass : (V.userland.pclassOf d).isSome) :
    ∃ z, materialise V.libbson V.userland .default path [] (.document d) = (z,[]) ∧
      Stored V F exact false (.document d) z := by
  obtain ⟨z,z',w,hz,hregular,hback,hw,hsame,ha,hquiet⟩ := h path
  have hlasts : Lasts V exact false (.document d) := Or.inl ⟨rfl,hclass⟩
  refine ⟨z,hz,hregular,fun z'' hback' => ?_,fun hnone => ?_⟩
  · obtain rfl := Option.some.inj (hback.symm.trans hback')
    refine ⟨.document w,hw,rfl,ha,fun _ => hquiet,
      namesAs_of_ne_binary (fun _ _ => BsonValue.noConfusion) fun _ _ => BsonValue.noConfusion,?_⟩
    rw [upTo_document,upTo_document,hsame]
    exact iff_of_true rfl hlasts
  · cases hback.symm.trans hnone

theorem regular_ofFields (h : ∀ e ∈ zs, Regular F e.2) : Regular F (ofFields false zs) := by
  rw [ofFields_false_eq]
  have hinj : Function.Injective fun key : CString => symtable key.bytes :=
    fun _ _ he => CString.ext (symtable_injective he)
  obtain ⟨hnodup,hall⟩ := regular_table h hinj
  refine ⟨hnodup,fun key hkey => ?_,hall⟩
  rw [keys_map_key fun key : CString => symtable key.bytes] at hkey
  obtain ⟨name,-,rfl⟩ := List.mem_map.mp hkey
  exact normal_symtable name.bytes

theorem comesBack_ofFields (zs : List (CString × Zval)) :
    comesBack F (ofFields false zs) = (comesBackFields F (updateAll [] zs)).map fun zs =>
      .array none (zs.map fun e => (symtable e.1.bytes,e.2)) := by
  rw [ofFields_false_eq,comesBack,comesBackAll_map fun key => symtable key.bytes,Option.map_map]
  rfl

theorem StoredAll.nativeArray (h : StoredAll V F exact native d zs) {z' : Zval}
    (hback : comesBack F (ofFields false zs) = some z') :
    ∃ zs' ws, z' = .array none (zs'.map fun e => (symtable e.1.bytes,e.2)) ∧
      WrittenAs V.libbson V.userland zs' ws ∧ RevivedDoc V exact native d ws := by
  obtain ⟨zs',hzs,rfl⟩ := Option.map_eq_some_iff.mp ((comesBack_ofFields zs).symm.trans hback)
  obtain ⟨ws,hws,hdoc⟩ := h.revivedDoc hzs
  exact ⟨zs',ws,rfl,hws,hdoc⟩

theorem StoredAll.nativeArray_lost (h : StoredAll V F exact native d zs)
    (hback : comesBack F (ofFields false zs) = none) :
    ¬ ((keys d).Nodup ∧ LastsAll V exact native d) :=
  h.lostDoc (Option.map_eq_none_iff.mp ((comesBack_ofFields zs).symm.trans hback))

theorem StoredAll.stored_nativeArray (h : StoredAll V F exact true d zs) :
    Stored V F exact true (.document d) (ofFields false zs) := by
  have hiff : Lasts V exact true (.document d) ↔
      (keys d).Nodup ∧ ¬ Numbered 0 (keys d) ∧ LastsAll V exact true d := by
    simp [Lasts]
  have hnames : ∀ {w}, (∀ s b, w ≠ .binary s b) → NamesAs V.userland (.document d) w :=
    namesAs_of_ne_binary fun _ _ => BsonValue.noConfusion
  have hnative : true = false → ∀ w, DecodesQuietly V.libbson V.userland w := fun h => nomatch h
  refine ⟨regular_ofFields h.regular,fun z' hback => ?_,fun hback hlasts =>
    h.nativeArray_lost hback ⟨(hiff.mp hlasts).1,(hiff.mp hlasts).2.2⟩⟩
  obtain ⟨zs',ws,rfl,hws,hdoc⟩ := h.nativeArray hback
  have hw := writes_array (hws.fields toStr_symtable)
  have hlist : keysAreIndices 0 (zs'.map fun e => (symtable e.1.bytes,e.2)) = true ↔
      Numbered 0 (keys zs') := keysAreIndices_symtable 0
  rw [hws.keys_eq] at hlist
  by_cases hn : Numbered 0 (keys ws)
  · rw [if_pos (hlist.mpr hn)] at hw
    refine ⟨.array ws,hw,rfl,hdoc.accepted,fun h => hnative h _,
      hnames fun _ _ => BsonValue.noConfusion,?_⟩
    rw [upTo_array,upTo_document,hiff]
    refine iff_of_false BsonValue.noConfusion fun hlasts => hlasts.2.1 ?_
    rwa [hdoc.keys,updateAll_self d hlasts.1] at hn
  · rw [if_neg fun hl => hn (hlist.mp hl)] at hw
    refine ⟨.document ws,hw,rfl,hdoc.accepted,fun h => hnative h _,
      hnames fun _ _ => BsonValue.noConfusion,?_⟩
    rw [upTo_document,upTo_document,BsonValue.document.injEq,hiff]
    constructor
    · intro he
      obtain ⟨hnodup,hall⟩ := hdoc.eq_iff.mp he
      exact ⟨hnodup,keys_of_upToAll_eq he ▸ hn,hall⟩
    · exact fun hlasts => hdoc.eq_iff.mpr ⟨hlasts.1,hlasts.2.2⟩

theorem keys_indexedFrom (n : ℕ) (zs : List Zval) :
    keys (indexedFrom n zs) = (List.range' n zs.length).map fun i => .int (Int64.ofNat i) := by
  induction zs generalizing n with
  | nil => rfl
  | cons z zs ih =>
    rw [List.length_cons,List.range'_succ,List.map_cons,← ih]
    rfl

theorem nodup_keys_indexedFrom {zs : List Zval} (h : zs.length ≤ 2147483647) :
    (keys (indexedFrom 0 zs)).Nodup := by
  rw [keys_indexedFrom]
  refine List.Nodup.map_on ?_ List.nodup_range'
  intro i hi j hj he
  have hlt : ∀ {i}, i ∈ List.range' 0 zs.length → i < 2^63 := fun hi => by
    have := List.mem_range'_1.mp hi
    omega
  have hint := congrArg Int64.toInt (Key.int.inj he)
  rw [Int64.toInt_ofNat_of_lt (hlt hi),Int64.toInt_ofNat_of_lt (hlt hj)] at hint
  exact Int.ofNat.inj hint

theorem acceptsAll_numbered {L : Libbson} (hL : L.Lawful) (n : ℕ) {ws : Doc}
    (h : acceptsAll L ws = true) : acceptsAll L (numbered n ws) = true := by
  induction ws generalizing n with
  | nil => rfl
  | cons f ws ih =>
    obtain ⟨key,v⟩ := f
    simp only [acceptsAll,Bool.and_eq_true] at h
    obtain ⟨⟨⟨-,ht⟩,ha⟩,hrest⟩ := h
    have hkey : L.keyValid (keyName (.int (Int64.ofNat n))) = true := by
      have hz0 : (0 : UInt8) ∉ (Key.int (Int64.ofNat n)).toStr := zero_notMem_longToStr _
      rw [Libbson.keyValid,bytes_keyName hz0,Key.toStr,hL.ascii _ _ (longToStr_ascii _),
        Bool.or_true]
    simp only [numbered,acceptsAll,hkey,ht,ha,ih (n+1) hrest,Bool.and_self]

theorem StoredAll.stored_array (hV : V.Lawful) (h : StoredAll V F exact native d zs)
    (hlength : d.length ≤ 2147483647) :
    Stored V F exact native (.array d) (ofFields true zs) where
  regular := by
    rw [ofFields_true]
    refine ⟨nodup_keys_indexedFrom ?_,fun key hkey => ?_,regularAll_iff.mpr fun e he => ?_⟩
    · rw [List.length_map,← h.length_eq]
      exact hlength
    · rw [keys_indexedFrom] at hkey
      obtain ⟨i,-,rfl⟩ := List.mem_map.mp hkey
      trivial
    · obtain ⟨e',he',hsnd⟩ := List.mem_map.mp (snd_mem_of_mem_indexedFrom he)
      exact hsnd ▸ h.regular e' he'
  revived z' hback := by
    rw [ofFields_true,comesBack,comesBackAll_indexedFrom] at hback
    obtain ⟨els,hels,rfl⟩ := Option.map_eq_some_iff.mp hback
    obtain ⟨zs',hzs,rfl⟩ := Option.map_eq_some_iff.mp hels
    obtain ⟨ws,hws⟩ := h.revived hzs
    have hw := writes_array (hws.written.indexedFrom 0)
    rw [keysAreIndices_indexedFrom,if_pos rfl] at hw
    refine ⟨.array (numbered 0 ws),hw,rfl,acceptsAll_numbered hV.libbson 0 hws.accepted,
      fun hnative => ((hws.quiet hnative).numbered 0).array,
      namesAs_of_ne_binary (fun _ _ => BsonValue.noConfusion) fun _ _ => BsonValue.noConfusion,?_⟩
    have hkeys : keys (upToAll exact ws) = keys (upToAll exact d) := by
      rw [keys_upToAll,keys_upToAll,hws.keys]
    rw [upTo_array,upTo_array,BsonValue.array.injEq,upToAll_numbered,numbered_eq_iff hkeys,
      hws.eq_iff,keys_upToAll]
    rfl
  lost hback hlasts := by
    rw [ofFields_true,comesBack,Option.map_eq_none_iff,comesBackAll_indexedFrom,
      Option.map_eq_none_iff] at hback
    exact h.lost hback hlasts.2

end Fields

section Values
variable {V : ValueOutside} {F : SerialFormat} {exact native : Bool}

theorem Stored.of_back {v : BsonValue} {z z' : Zval} {w : BsonValue} (hregular : Regular F z)
    (hback : comesBack F z = some z') (h : Revived V exact native v z' w) :
    Stored V F exact native v z where
  regular := hregular
  revived _ hz := ⟨w,Option.some.inj (hback.symm.trans hz) ▸ h⟩
  lost hnone := absurd (hback.symm.trans hnone) (Option.some_ne_none z')

theorem Stored.of_lost {v : BsonValue} {z : Zval} (hregular : Regular F z)
    (hback : comesBack F z = none) (h : ¬ Lasts V exact native v) :
    Stored V F exact native v z where
  regular := hregular
  revived _ hz := absurd (hback.symm.trans hz) (Option.some_ne_none _).symm
  lost _ := h

theorem revived_self {v : BsonValue} {z : Zval} (hv : v.IsLeaf)
    (hw : Writes V.libbson V.userland z v) (ht : V.libbson.textValid v = true)
    (ha : accepts V.libbson v = true) (hl : Lasts V exact native v) :
    Revived V exact native v z v :=
  ⟨hw,ht,ha,fun _ => decodesQuietly_leaf hv,namesAs_rfl v,iff_of_true rfl hl⟩

theorem upTo_double (bits : UInt64) : upTo exact (.double bits) = .double bits := by
  cases exact <;> rfl

theorem upTo_decimal128 (high low : UInt64) :
    upTo exact (.decimal128 high low) = .decimal128 high low := by
  cases exact <;> rfl

theorem upTo_regex (pattern options : CString) :
    upTo exact (.regex pattern options) = .regex pattern options := by
  cases exact <;> rfl

theorem comesBack_bson (obj : BsonObject) :
    comesBack (V.objects F) (.bson obj) = (V.reads F obj).map .bson := rfl

theorem stored_double (hV : V.Lawful) (bits : UInt64) :
    Stored V (V.objects F) exact native (.double bits) (.double bits) := by
  have hregular : Regular (V.objects F) (.double bits) := hV.doubleText bits
  have hback : comesBack (V.objects F) (.double bits) =
      (V.readDouble (V.doubleText bits)).map .double := rfl
  cases hread : V.readDouble (V.doubleText bits) with
  | none =>
    rw [hread] at hback
    refine .of_lost hregular hback fun hlasts => ?_
    cases hread.symm.trans hlasts
  | some bits' =>
    rw [hread] at hback
    refine .of_back hregular hback ⟨writes_data (z:=.double bits') trivial,rfl,rfl,
      fun _ => decodesQuietly_leaf trivial,
      namesAs_of_ne_binary (fun _ _ => BsonValue.noConfusion) fun _ _ => BsonValue.noConfusion,?_⟩
    simp [toBson,upTo_double,Lasts,hread]

theorem stored_decimal128 (high low : UInt64) : Stored V (V.objects F) exact native
    (.decimal128 high low) (.bson (.decimal128 high low)) := by
  obtain ⟨⟨ok,high',low'⟩,hr⟩ :
      ∃ r, V.text.decimal128FromString (V.text.decimal128ToString (high,low)) = r := ⟨_,rfl⟩
  have hback := comesBack_bson (V:=V) (F:=F) (.decimal128 high low)
  rw [ValueOutside.reads_decimal128 hr] at hback
  cases ok with
  | false =>
    refine .of_lost trivial hback fun hlasts => ?_
    cases hr.symm.trans hlasts
  | true =>
    refine .of_back trivial hback ⟨writes_data (z:=.bson (.decimal128 high' low')) trivial,rfl,rfl,
      fun _ => decodesQuietly_leaf trivial,
      namesAs_of_ne_binary (fun _ _ => BsonValue.noConfusion) fun _ _ => BsonValue.noConfusion,?_⟩
    simp [toBson,bsonObjectValue,upTo_decimal128,Lasts,hr]

theorem stored_regex (hV : V.Lawful) {pattern options : CString}
    (ht : V.libbson.textValid (.regex pattern options) = true) :
    Stored V (V.objects F) exact native (.regex pattern options)
      (.bson (.regex pattern options)) := by
  have hback := comesBack_bson (V:=V) (F:=F) (.regex pattern options)
  rw [ValueOutside.reads_regex] at hback
  have hsorted : V.libbson.regexOptions (sortFlags V.signed options) =
      V.libbson.regexOptions options := by
    refine hV.regexOptions _ _ ?_
    rw [bytes_sortFlags]
    exact List.perm_insertionSort _ _
  have hw : Writes V.libbson V.userland (.bson (.regex pattern (sortFlags V.signed options)))
      (.regex pattern (V.libbson.regexOptions options)) := by
    rw [← hsorted]
    exact writes_data (z:=.bson (.regex pattern (sortFlags V.signed options))) trivial
  simp only [Libbson.textValid,Bool.and_eq_true] at ht
  refine .of_back trivial hback ⟨hw,?_,rfl,fun _ => decodesQuietly_leaf trivial,
    namesAs_of_ne_binary (fun _ _ => BsonValue.noConfusion) fun _ _ => BsonValue.noConfusion,?_⟩
  · simp only [Libbson.textValid,ht.1,hV.libbson.regexOptions,Bool.and_self]
  · simp [upTo_regex,Lasts]

theorem stored_code {c : Bytes} (ht : V.libbson.textValid (.code c) = true) :
    Stored V (V.objects F) exact native (.code c) (.bson (.javascript c none)) := by
  have hreads : V.reads F (.javascript c none) =
      revived (fun js : Javascript => .javascript js.code js.scope)
        (some (Javascript.init V.libbson V.userland none c (some .null) [])) :=
    ValueOutside.reads_javascript (z:=.null) rfl trivial
  have hback := comesBack_bson (V:=V) (F:=F) (.javascript c none)
  rw [hreads] at hback
  by_cases hnul : (0 : UInt8) ∈ c
  · rw [ValueOutside.revived_of_exceptions (Javascript.exceptions_init_of_nul rfl hnul)] at hback
    exact .of_lost trivial hback fun hlasts => hlasts hnul
  · rw [Javascript.init_accepted rfl rfl hnul] at hback
    have hw := writes_data (L:=V.libbson) (U:=V.userland) (z:=.bson (.javascript c none)) trivial
    rw [toBson,bsonObjectValue,cstr_of_notMem c hnul] at hw
    exact .of_back trivial hback (revived_self trivial hw ht rfl hnul)

theorem stored_int64 (hV : V.Lawful) (n : Int64) :
    Stored V (V.objects F) exact native (.int64 n) (.long n) := by
  have hw : Writes V.libbson V.userland (.long n) (intValue n) := writes_data (z:=.long n) trivial
  obtain ⟨ht,ha⟩ := intValue_valid V.libbson n
  have hleaf : (intValue n).IsLeaf := by
    unfold intValue
    split <;> trivial
  have hbinary : ∀ s b, intValue n ≠ .binary s b := fun s b => by
    unfold intValue
    split <;> exact BsonValue.noConfusion
  refine .of_back trivial rfl ⟨hw,ht,ha,fun _ => decodesQuietly_leaf hleaf,
    namesAs_of_ne_binary (fun _ _ => BsonValue.noConfusion) hbinary,?_⟩
  · cases exact with
    | false => exact iff_of_true (narrow_intValue n) fun h => absurd h Bool.false_ne_true
    | true =>
      have hiff := toBson_leafValue hV.libbson native (v:=.int64 n) trivial rfl
      exact hiff.trans ⟨fun h _ => h,fun h => h rfl⟩

theorem stored_leaf (hV : V.Lawful) {v : BsonValue} (hv : v.IsLeaf)
    (ht : V.libbson.textValid v = true) (ha : accepts V.libbson v = true) :
    Stored V (V.objects F) exact native v (leafValue V.libbson v) := by
  have hback := fun obj => comesBack_bson (V:=V) (F:=F) obj
  have hw := writes_leaf (U:=V.userland) hV.libbson hv ht ha
  cases v with
  | document | array | codeWithScope => exact hv.elim
  | unsupported | corrupt => simp [accepts] at ha
  | double bits => exact stored_double hV bits
  | decimal128 high low => exact stored_decimal128 high low
  | regex pattern options => exact stored_regex hV ht
  | code c => exact stored_code ht
  | int64 n => exact stored_int64 hV n
  | int32 n =>
    have hn : toBson V.libbson (leafValue V.libbson (.int32 n)) = .int32 n := intValue_toInt64 n
    rw [hn] at hw
    exact .of_back trivial rfl (revived_self hv hw ht ha trivial)
  | utf8 s => exact .of_back trivial rfl (revived_self hv hw ht ha trivial)
  | bool b => exact .of_back trivial rfl (revived_self hv hw ht ha trivial)
  | null => exact .of_back trivial rfl (revived_self hv hw ht ha trivial)
  | maxKey => exact .of_back trivial rfl (revived_self hv hw ht ha trivial)
  | minKey => exact .of_back trivial rfl (revived_self hv hw ht ha trivial)
  | undefined => exact .of_back trivial rfl (revived_self hv hw ht ha trivial)
  | dateTime ms =>
    have hd := hback (.utcDateTime ms)
    rw [ValueOutside.reads_utcDateTime hV] at hd
    exact .of_back trivial hd (revived_self hv hw ht ha trivial)
  | timestamp t i =>
    have hd := hback (.timestamp t i)
    rw [ValueOutside.reads_timestamp hV] at hd
    exact .of_back trivial hd (revived_self hv hw ht ha trivial)
  | oid o =>
    have hd := hback (.objectId (V.libbson.oidToString o))
    rw [ValueOutside.reads_objectId hV] at hd
    have ho : toBson V.libbson (leafValue V.libbson (.oid o)) = .oid o :=
      congrArg BsonValue.oid (hV.libbson.oid o)
    rw [ho] at hw
    exact .of_back trivial hd (revived_self hv hw ht ha trivial)
  | binary subtype data =>
    have hd := hback (.binary data subtype)
    rw [ValueOutside.reads_binary] at hd
    by_cases hlength : (Binary.mk data subtype).MislengthedUuid
    · rw [if_pos hlength] at hd
      exact .of_lost trivial hd fun hlasts => hlasts hlength
    · rw [if_neg hlength] at hd
      exact .of_back trivial hd (revived_self hv hw ht ha hlength)
  | symbol s =>
    have hd := hback (.symbol s)
    rw [ValueOutside.reads_symbol] at hd
    by_cases hnul : (0 : UInt8) ∈ s
    · rw [if_pos hnul] at hd
      exact .of_lost trivial hd fun hlasts => hlasts hnul
    · rw [if_neg hnul] at hd
      exact .of_back trivial hd (revived_self hv hw ht ha hnul)
  | dbPointer ns o =>
    have hd := hback (.dbPointer ns (V.libbson.oidToString o))
    rw [ValueOutside.reads_dbPointer hV] at hd
    by_cases hnul : (0 : UInt8) ∈ ns
    · rw [if_pos hnul] at hd
      exact .of_lost trivial hd fun hlasts => hlasts hnul
    · rw [if_neg hnul] at hd
      have hns : toBson V.libbson (leafValue V.libbson (.dbPointer ns o)) = .dbPointer ns o := by
        simp [leafValue,toBson,bsonObjectValue,hV.libbson.oid,cstr_of_notMem ns hnul]
      rw [hns] at hw
      exact .of_back trivial hd (revived_self hv hw ht ha hnul)

/-- The scope of a stored document is restored as its fields are, or as its class does. -/
theorem StoredAll.rootStored {d : Doc} {zs : List (CString × Zval)}
    (h : StoredAll V F exact false d zs) (hclass : V.userland.pclassOf d = none) :
    RootStored V F exact d (ofFields false zs).convertToObject := by
  have hiff : RootLasts V exact d ↔ (keys d).Nodup ∧ LastsAll V exact false d := by
    simp [RootLasts,hclass]
  refine ⟨h.regular_object,fun z' hback => ?_,fun hback => hiff.not.mpr (h.object_lost hback)⟩
  obtain ⟨els,ws,rfl,hels,hdoc⟩ := h.object hback
  refine ⟨ws,rfl,zvalToDoc_object hels,hdoc.accepted,
    (hdoc.quiet rfl).root (hdoc.unnamed hclass),?_,hdoc.eq_iff.trans hiff.symm⟩
  rw [eq_nil_of_keys hdoc.keys,updateAll_eq_nil]

theorem RootClassRestores.stored {d : Doc} (h : RootClassRestores V exact F d)
    (hclass : (V.userland.pclassOf d).isSome) :
    ∃ z, Decodes V.libbson V.userland .default d z ∧ RootStored V F exact d z := by
  obtain ⟨z,z',w,hdecodes,hregular,hback,hobject,hw,hsame,ha,hquiet⟩ := h
  refine ⟨z,hdecodes,hregular,fun z'' hback' => ?_,fun hnone => ?_⟩
  · obtain rfl := Option.some.inj (hback.symm.trans hback')
    exact ⟨w,hobject,hw,ha,hquiet,eq_nil_of_keys (keys_of_upToAll_eq hsame),
      iff_of_true hsame (Or.inl hclass)⟩
  · cases hback.symm.trans hnone

theorem stored_scope {c : Bytes} {scope : Doc} {z : Zval}
    (ht : V.libbson.textValid (.codeWithScope c scope) = true)
    (hdecodes : Decodes V.libbson V.userland .default scope z)
    (h : RootStored V F exact scope z) :
    Stored V (V.objects F) exact native (.codeWithScope c scope)
      (.bson (.javascript c (some scope))) := by
  have hexports := Javascript.exportScope_of_decodes hdecodes
  have hback := comesBack_bson (V:=V) (F:=F) (.javascript c (some scope))
  rw [ValueOutside.reads_javascript hexports h.regular] at hback
  cases hobject : comesBack F z with
  | none =>
    rw [hobject] at hback
    exact .of_lost trivial hback fun hlasts => h.lost hobject hlasts.2
  | some z' =>
    rw [hobject] at hback
    obtain ⟨ws,hz',hws,ha,hquiet,-,hiff⟩ := h.revived z' hobject
    have haccepted := Javascript.scopeAccepted_of_isArrayOrObject hz'
    by_cases hnul : (0 : UInt8) ∈ c
    · rw [Option.bind_some,
        ValueOutside.revived_of_exceptions
          (Javascript.exceptions_init_of_nul haccepted hnul)] at hback
      exact .of_lost trivial hback fun hlasts => hlasts.1 hnul
    · have hdocument := Javascript.scopeDocument_of_isArrayOrObject hz' hws
      rw [Option.bind_some,Javascript.init_accepted haccepted hdocument hnul] at hback
      have hscope : ScopeDecodes V.libbson V.userland (.javascript c (some ws)) :=
        (bsonToZvalEx_fresh (U:=V.userland) ha Typemap.default []).2.2.trans hquiet
      have hw := writes_data (z:=.bson (.javascript c (some ws))) hscope
      rw [toBson,bsonObjectValue,cstr_of_notMem c hnul] at hw
      refine .of_back trivial hback ⟨hw,ht,ha,fun _ _ => hquiet,
        namesAs_of_ne_binary (fun _ _ => BsonValue.noConfusion) fun _ _ => BsonValue.noConfusion,?_⟩
      rw [upTo_codeWithScope,upTo_codeWithScope,BsonValue.codeWithScope.injEq,hiff]
      simp [Lasts,RootLasts,hnul]

/-- What comes back from the format also comes back where it is only encoded again. -/
theorem comesBack_of_lasts (V : ValueOutside) (exact : Bool) :
    (∀ v native, Lasts V exact native v → ComesBack V.libbson V.userland exact v) ∧
    ∀ d native, LastsAll V exact native d → ComesBackAll V.libbson V.userland exact d := by
  refine BsonValue.induction ?leaf ?document ?array ?scope ?nil ?cons
  case leaf =>
    intro v hv native h
    cases v with
    | document | array | codeWithScope => exact hv.elim
    | code | dbPointer | regex | int64 => exact h
    | _ => trivial
  case document =>
    rintro d ih native (⟨-,hclass⟩ | ⟨hnodup,-,hall⟩)
    · exact Or.inl hclass
    · exact Or.inr ⟨hnodup,ih native hall⟩
  case array => exact fun d ih native h => ⟨h.1,ih native h.2⟩
  case scope => exact fun c s _ native h => h.1
  case nil => exact fun _ _ => trivial
  case cons => exact fun key v d ihv ihd native h => ⟨ihv native h.1,ihd native h.2⟩

theorem RootLasts.comesBack {d : Doc} (h : RootLasts V exact d) :
    RootComesBack V.libbson V.userland exact d :=
  h.imp_right fun h => ⟨h.1,(comesBack_of_lasts V exact).2 d false h.2⟩

theorem format_eq (depth : ℕ) : ∃ F, V.format depth = V.objects F := by
  cases depth <;> exact ⟨_,rfl⟩

/-- What is decoded can be serialized, and what is unserialized is the same again exactly where it
lasts. -/
theorem stored_spec (hV : V.Lawful) (exact : Bool) :
    (∀ v, V.libbson.textValid v = true → accepts V.libbson v = true →
      ∀ depth native, ClassesRestore V exact depth native v → ∀ path, ∃ z,
        materialise V.libbson V.userland (nativeMap native) path [] v = (z,[]) ∧
        Stored V (V.format depth) exact native v z) ∧
    (∀ d, acceptsAll V.libbson d = true →
      ∀ depth native, ClassesRestoreAll V exact depth native d → ∀ path, ∃ zs,
        materialiseAll V.libbson V.userland (nativeMap native) path [] d = (zs,[]) ∧
        StoredAll V (V.format depth) exact native d zs) := by
  refine BsonValue.induction ?leaf ?document ?array ?scope ?nil ?cons
  case leaf =>
    intro v hv ht ha depth native _ path
    obtain ⟨F,hF⟩ := format_eq (V:=V) depth
    rw [hF]
    exact ⟨_,materialise_leaf hv _,stored_leaf hV hv ht ha⟩
  case document =>
    intro d ih _ ha depth native hc path
    cases native with
    | false =>
      cases hclass : V.userland.pclassOf d with
      | some ce =>
        have hsome : (V.userland.pclassOf d).isSome := by simp [hclass]
        exact (hc.1 rfl hsome).stored path hsome
      | none =>
        obtain ⟨zs,hzs,hall⟩ := ih ha depth false (hc.2 (Or.inr hclass)) path
        refine ⟨_,?_,hall.stored_object hclass⟩
        rw [materialise,hzs,nativeMap_documentTarget,hclass]
        rfl
    | true =>
      obtain ⟨zs,hzs,hall⟩ := ih ha depth true (hc.2 (Or.inl rfl)) path
      refine ⟨_,?_,hall.stored_nativeArray⟩
      rw [materialise,hzs,nativeMap_documentTarget]
      rfl
  case array =>
    intro d ih _ ha depth native hc path
    obtain ⟨zs,hzs,hall⟩ := ih ha depth native hc.2 path
    refine ⟨_,?_,hall.stored_array hV hc.1⟩
    rw [materialise,hzs,nativeMap_arrayTarget]
    rfl
  case scope =>
    intro c s ih ht ha depth native hc path
    cases depth with
    | zero => exact hc.elim
    | succ depth =>
      have hroot : ∃ z, Decodes V.libbson V.userland .default s z ∧
          RootStored V (V.format depth) exact s z := by
        cases hclass : V.userland.pclassOf s with
        | some ce =>
          have hsome : (V.userland.pclassOf s).isSome := by simp [hclass]
          exact (hc.1 hsome).stored hsome
        | none =>
          obtain ⟨zs,hzs,hall⟩ := ih ha depth false (hc.2 hclass) []
          exact ⟨_,decodes_object hclass ha hzs,hall.rootStored hclass⟩
      obtain ⟨z,hdecodes,hstored⟩ := hroot
      have hquiet : (materialiseRoot V.libbson V.userland .default [] s).2 = [] :=
        (bsonToZvalEx_fresh (U:=V.userland) ha Typemap.default []).2.2.symm.trans hdecodes.exceptions
      exact ⟨.bson (.javascript c (some s)),congrArg (Prod.mk _) hquiet,
        stored_scope ht hdecodes hstored⟩
  case nil => exact fun _ _ _ _ _ => ⟨[],rfl,.nil⟩
  case cons =>
    intro key v rest ihv ihd ha depth native hc path
    simp only [acceptsAll,Bool.and_eq_true] at ha
    obtain ⟨⟨⟨hkey,ht⟩,hv⟩,hrest⟩ := ha
    obtain ⟨hloads,hcv,hcd⟩ := hc
    obtain ⟨z,hz,hstored⟩ := ihv ht hv depth native hcv (path ++ [key])
    obtain ⟨zs,hzs,hall⟩ := ihd hrest depth native hcd path
    refine ⟨(key,z)::zs,?_,.cons ⟨rfl,hkey,hloads,hstored⟩ hall⟩
    simp only [materialiseAll,hz,hloads,hzs]

/-- A root can be serialized, and what is unserialized is the same exactly where it lasts. -/
theorem RootClassesRestore.stored (hV : V.Lawful) {depth : ℕ} {d : Doc}
    (hc : RootClassesRestore V exact depth d) (ha : acceptsAll V.libbson d = true) :
    ∃ z, Decodes V.libbson V.userland .default d z ∧ RootStored V (V.format depth) exact d z := by
  cases hclass : V.userland.pclassOf d with
  | some ce =>
    have hsome : (V.userland.pclassOf d).isSome := by simp [hclass]
    exact (hc.named hsome).stored hsome
  | none =>
    obtain ⟨zs,hzs,hall⟩ :=
      (stored_spec hV exact).2 d ha depth false (hc.unnamed hclass) []
    exact ⟨_,decodes_object hclass ha hzs,hall.rootStored hclass⟩

end Values
end Phongo
