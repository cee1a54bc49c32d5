import Mathlib.Tactic.Common
import Phongo.Bson.Below

/-! An object encoded as the root and as the value of a key: two paths of the encoder that call
`bsonSerialize()`, inject `__pclass` and choose a table each in its own way. -/
namespace Phongo

/-- The elements of the table a value encoded as a document is read from. -/
def Zval.tableElements : Zval → List (Key × Zval)
  | .array _ els => els
  | .object _ _ properties _ => properties
  | _ => []

/-- The keys a loop over a table looks at: the first that holds a NUL ends it. -/
def reachedKeys : List (Key × Zval) → List Key
  | [] => []
  | (key,_)::rest => if 0 ∈ key.toStr then [key] else key::reachedKeys rest

/-- Options that make no difference to the keys reached make none to the loop. -/
theorem appendAll_options (L : Libbson) (U : Userland) {fromProperties skip : Bool}
    {els : List (Key × Zval)}
    (h : ∀ key ∈ reachedKeys els, inspectKey fromProperties skip key = inspectKey false false key) :
    appendAll L U fromProperties skip els = appendAll L U false false els := by
  induction els with
  | nil => rfl
  | cons el rest ih =>
    obtain ⟨key,z⟩ := el
    rw [reachedKeys] at h
    by_cases hz : 0 ∈ key.toStr
    · have hkey := h key (by simp [hz])
      have habort : inspectKey false false key = .abort := by
        cases key with
        | int n => exact absurd hz (zero_notMem_longToStr n)
        | str s => simpa [inspectKey,Key.toStr] using hz
      funext addId e
      simp only [appendAll,hkey,habort]
    · rw [if_neg hz,List.forall_mem_cons] at h
      have hr := ih h.2
      funext addId e
      simp only [appendAll,h.1,hr]

/-- `php_phongo_zval_to_bson_internal` and `php_phongo_bson_append_object` read the same table
with the same effect from what a `bsonSerialize()` of `ce`, whose object owns the table `ht`,
returned. -/
structure ReadAlike (L : Libbson) (ce : ClassEntry) (ht : Option ℕ) (returned : Zval) : Prop where
  /-- no `bsonSerialize()` of its own, nor a `Type` that has none -/
  not_type : ∀ ce' ht' properties' returned',
    returned = .object ce' ht' properties' returned' → ce'.isType = false
  no_odmField : ce.isPersistable = true →
    .str odmFieldName.bytes ∉ reachedKeys returned.tableElements
  /-- no private or protected property -/
  no_mangled : ∀ ce' ht' properties' returned',
    returned = .object ce' ht' properties' returned' →
      ∀ s, .str s ∈ reachedKeys properties' → s.head? ≠ some 0
  spares : Spares ht (metByInternal L returned)

theorem inspectKey_options {fromProperties skip : Bool} {key : Key}
    (hm : fromProperties = true → ∀ s, key = .str s → s.head? ≠ some 0)
    (ho : skip = true → key ≠ .str odmFieldName.bytes) :
    inspectKey fromProperties skip key = inspectKey false false key := by
  cases key with
  | int n => rfl
  | str s =>
    have hm' : ¬ (fromProperties = true ∧ s.head? = some 0) := fun h => hm h.1 s rfl h.2
    have ho' : ¬ (skip = true ∧ s = odmFieldName.bytes) := fun h => ho h.1 (by rw [h.2])
    simp only [inspectKey,hm',ho',Bool.false_eq_true,false_and,if_false]

theorem ReadAlike.internal_eq {L : Libbson} {ce : ClassEntry} {ht : Option ℕ} {returned : Zval}
    (U : Userland) (h : ReadAlike L ce ht returned) (hret : returned.isArrayOrStdClass = true)
    (flags : Flags) : internal L U returned flags =
      closeFields L (appendTable L U false ce.isPersistable returned) flags := by
  have hodm := h.no_odmField
  cases returned with
  | array ht' els =>
    have hroot : appendAll L U false ce.isPersistable els = appendAll L U false false els :=
      appendAll_options L U fun key hkey => inspectKey_options (by simp)
        fun hp hk => hodm hp (hk ▸ hkey)
    rw [internal,appendTable,hroot]
  | object ce' ht' properties' returned' =>
    have htype := h.not_type ce' ht' properties' returned' rfl
    have hmangled := h.no_mangled ce' ht' properties' returned' rfl
    have hserializable : ce'.isSerializable = false := by
      by_contra hs
      rw [Bool.not_eq_false] at hs
      simp [ClassEntry.isType_of_isSerializable hs] at htype
    have hroot : appendAll L U false ce.isPersistable properties' =
        appendAll L U false false properties' :=
      appendAll_options L U fun key hkey => inspectKey_options (by simp)
        fun hp hk => hodm hp (hk ▸ hkey)
    have hnested : appendAll L U true false properties' = appendAll L U false false properties' :=
      appendAll_options L U fun key hkey => inspectKey_options
        (fun _ s hs => hmangled s (hs ▸ hkey)) (by simp)
    rw [internal,appendTable,hroot,hnested]
    funext e
    simp only [internalObject,hserializable,htype,Bool.false_eq_true,if_false]
  | _ => cases hret

section Names
variable {L : Libbson} {U : Userland}

/-- Every element `f` appends is named `key`. -/
def Append.Named (key : CString) (f : Append) : Prop := ∀ e, ∀ el ∈ (f e).1, el.1 = key

theorem appendElement_named (key : CString) (v : BsonValue) : (appendElement key v).Named key :=
  fun _ el hel => by simp_all [appendElement]

theorem guarded_named {f : Append} {key : CString} (ht : Option ℕ) (type : ItemType)
    (h : f.Named key) : (guarded ht type f).Named key := by
  intro e el hel
  unfold guarded at hel
  split at hel
  · simp at hel
  · exact h _ el hel

theorem appendObject_named (key : CString) (ce : ClassEntry) (returned : Zval)
    (nested own : Append) : (appendObject key ce returned nested own).Named key := by
  have hdoc : ∀ f : Append, (appendDocument key f).Named key := fun f e el hel => by
    simp_all [appendDocument]
  intro e el hel
  unfold appendObject at hel
  split at hel
  · split at hel
    · dsimp only at hel
      split at hel
      · simp at hel
      · split at hel
        · simp at hel
        · split at hel
          · exact hdoc _ _ el hel
          · simp_all [appendArray]
    · simp at hel
  · exact hdoc own e el hel

theorem appendValue_named (key : CString) (z : Zval) : (appendValue L U key z).Named key := by
  refine (Zval.induction (P:=fun z => (appendValue L U key z).Named key) (Q:=fun _ => True)
    ?leaf ?array ?object ?reference trivial fun _ _ _ _ _ => trivial).1 z
  case leaf =>
    intro z hl
    cases z with
    | array | object | reference => exact hl.elim
    | undef | resource => exact fun e el hel => by simp [appendValue,throwUnsupportedType] at hel
    | null | bool | double => exact appendElement_named key _
    | long n =>
      rw [appendValue]
      unfold appendInt
      split <;> exact appendElement_named key _
    | string s =>
      intro e el hel
      rw [appendValue,appendString] at hel
      split at hel
      · simp_all
      · simp at hel
    | bson obj => exact fun e => guarded_named none .document (appendElement_named key _) _
    | cursorId id => exact guarded_named none .document (appendElement_named key _)
  case array =>
    intro ht els _ e el hel
    rw [appendValue] at hel
    split at hel
    · exact guarded_named ht .array (fun _ _ h => by simp_all [appendArray]) e el hel
    · exact guarded_named ht .document (fun _ _ h => by simp_all [appendDocument]) e el hel
  case object =>
    intro ce ht properties returned _ _
    rw [appendValue]
    exact guarded_named ht .document (appendObject_named key ce returned _ _)
  case reference =>
    intro z ih
    rw [appendValue]
    exact ih

theorem inspectKey_ne_odm {fromProperties : Bool} {key : Key} {name : CString}
    (h : inspectKey fromProperties true key = .append name) : name ≠ odmFieldName := by
  rintro rfl
  cases key with
  | int n =>
    injection h with hname
    have hn : longToStr n = odmFieldName.bytes := congrArg CString.bytes hname
    have hs : symtable odmFieldName.bytes = .int n := by rw [← hn,symtable_longToStr]
    have hodm : symtable odmFieldName.bytes = .str odmFieldName.bytes := by decide
    rw [hodm] at hs
    cases hs
  | str s =>
    simp only [inspectKey] at h
    split at h
    · cases h
    · split at h
      · cases h
      · split at h
        · cases h
        · rename_i hs
          injection h with hname
          exact hs ⟨trivial,congrArg CString.bytes hname⟩

theorem odm_notMem_appendAll (fromProperties : Bool) (els : List (Key × Zval)) (addId : Bool)
    (e : Encoder) :
    odmFieldName ∉ (appendAll L U fromProperties true els addId e).fields.map Prod.fst := by
  induction els generalizing addId e with
  | nil => simp [appendAll]
  | cons el rest ih =>
    obtain ⟨key,z⟩ := el
    simp only [appendAll]
    cases hk : inspectKey fromProperties true key with
    | skip => exact ih addId e
    | abort => simp
    | append name =>
      have hvalue : odmFieldName ∉ (appendValue L U name z (e.writeItem name)).1.map Prod.fst := by
        intro hm
        obtain ⟨el,hel,hname⟩ := List.mem_map.mp hm
        exact inspectKey_ne_odm hk (by rw [← appendValue_named name z _ el hel,hname])
      simpa using ⟨by simpa using hvalue,by simpa using ih _ _⟩

/-- Without the flag the loop is the whole of `php_phongo_zval_to_bson_internal`. -/
theorem addId_appendAll (fromProperties skip : Bool) (els : List (Key × Zval)) (e : Encoder) :
    (appendAll L U fromProperties skip els false e).addId = false := by
  induction els generalizing e with
  | nil => rfl
  | cons el rest ih =>
    obtain ⟨key,z⟩ := el
    simp only [appendAll]
    cases inspectKey fromProperties skip key with
    | skip => exact ih e
    | abort => rfl
    | append name => exact ih _

theorem closeFields_none {loop : Loop} {e : Encoder} (h : (loop false e).addId = false) :
    closeFields L loop .none e = ((loop false e).fields,(loop false e).encoder) := by
  simp [closeFields,finishFields,Flags.none,h]

theorem odm_notMem_appendTable (returned : Zval) (e : Encoder) :
    odmFieldName ∉
      (closeFields L (appendTable L U false true returned) .none e).1.map Prod.fst := by
  have hempty : odmFieldName ∉ (closeFields L (fun addId e => ⟨[],addId,false,e⟩) .none e).1.map
      Prod.fst := by
    rw [closeFields_none rfl]
    simp
  cases returned with
  | array ht els =>
    rw [appendTable,closeFields_none (addId_appendAll _ _ _ _)]
    exact odm_notMem_appendAll false els false e
  | object ce ht properties returned =>
    rw [appendTable,closeFields_none (addId_appendAll _ _ _ _)]
    exact odm_notMem_appendAll false properties false e
  | _ => exact hempty

end Names

theorem callBsonSerialize_returns {returned : Zval} {e : Encoder} (he : e.exceptions = [])
    (hret : returned.isArrayOrStdClass = true) : callBsonSerialize returned e = (returned,e) := by
  cases returned with
  | array | object => simp [callBsonSerialize,he]
  | _ => cases hret

theorem isUndef_of_isArrayOrStdClass {z : Zval} (h : z.isArrayOrStdClass = true) :
    z.isUndef = false := by
  cases z with
  | undef => cases h
  | _ => rfl

/-- The element with the class name in front of what `body` appends. -/
def withOdm (ce : ClassEntry) (body : Append) : Append := fun e =>
  let r := body e
  if ce.isPersistable then (odmField ce::r.1,r.2) else r

section
variable {L : Libbson} {U : Userland} {ce : ClassEntry} {ht : Option ℕ}
  {properties : List (Key × Zval)} {returned : Zval}

theorem internal_serializable (hser : ce.isSerializable = true)
    (hret : returned.isArrayOrStdClass = true) (flags : Flags) {e : Encoder}
    (he : e.exceptions = []) :
    internal L U (.object ce ht properties returned) flags e =
      withOdm ce (closeFields L (appendTable L U false ce.isPersistable returned) flags) e := by
  rw [internal,internalObject]
  simp only [hser,if_true,callBsonSerialize_returns he hret,isUndef_of_isArrayOrStdClass hret,hret,
    Bool.not_true,Bool.false_eq_true,if_false]
  rfl

theorem appendObject_serializable (hser : ce.isSerializable = true)
    (hret : returned.isArrayOrStdClass = true)
    (hdoc : (ce.isPersistable || !returned.isBsonArray) = true) (key : CString)
    (nested own : Append) {e : Encoder} (he : e.exceptions = []) :
    appendObject key ce returned nested own e = appendDocument key (withOdm ce nested) e := by
  simp only [appendObject,hser,ClassEntry.isType_of_isSerializable hser,if_true,
    callBsonSerialize_returns he hret,isUndef_of_isArrayOrStdClass hret,hret,hdoc,
    Bool.not_true,Bool.false_eq_true,if_false]
  rfl

/-- The encoder as it is on entering the value of the first key, whose table is protected. -/
theorem below_init (k : CString) (ht : Option ℕ) :
    Below k ht [] (Encoder.init [])
      (({ Encoder.init [] with protectedTables := ht.toList }.writeItem k).enter .document) where
  holds := FieldPath.alloc_holds
  holds_below := FieldPath.alloc_holds.push k .document
  exceptions := rfl
  protectedTables := rfl
  generatedOids := rfl
  bsonOut := rfl

theorem guarded_init (k : CString) (ht : Option ℕ) (body : Append) :
    let e := ({ Encoder.init [] with protectedTables := ht.toList }.writeItem k).enter .document
    (guarded ht .document body ((Encoder.init []).writeItem k)).1 = (body e).1 ∧
      (guarded ht .document body ((Encoder.init []).writeItem k)).2.exceptions =
        (body e).2.exceptions := by
  cases ht with
  | none => exact ⟨rfl,rfl⟩
  | some t => exact ⟨rfl,rfl⟩

end

/-- A Serializable object encoded as a document is the same document as the root and under a
key, when both paths read what its `bsonSerialize()` returned alike. -/
theorem nested_agrees_root (L : Libbson) (U : Userland) (ce : ClassEntry) (ht : Option ℕ)
    (properties : List (Key × Zval)) (returned : Zval) (table : Option ℕ) (key : Key)
    (k : CString) (hkey : inspectKey false false key = .append k)
    (hser : ce.isSerializable = true) (hret : returned.isArrayOrStdClass = true)
    (hdoc : (ce.isPersistable || !returned.isBsonArray) = true)
    (h : ReadAlike L ce ht returned) :
    let o : Zval := .object ce ht properties returned
    let root := zvalToBson L U o .none []
    let nested := zvalToBson L U (.array table [(key,o)]) .none []
    nested.1 = [(k,.document root.1)] ∧ nested.2.2 = pendingUnder k root.2.2 ∧
      (ce.isPersistable = true → (root.1.map Prod.fst).count odmFieldName = 1) := by
  intro o root nested
  have hroot : internal L U o .none (Encoder.init []) =
      withOdm ce (internal L U returned .none) (Encoder.init []) := by
    rw [internal_serializable hser hret .none rfl,h.internal_eq U hret]
  have hsim : AppendsAlike k ht (withOdm ce (internal L U returned .none))
      (withOdm ce (internal L U returned .none)) :=
    withOdm_alike ce (((append_alike L U k ht).1 returned).2.1 h.spares .none)
  obtain ⟨hfields,hbelow⟩ := hsim [] _ _ (below_init k ht)
  obtain ⟨hg,hgx⟩ := guarded_init k ht (appendObject k ce returned (internal L U returned .none)
    (internalObject L ce returned (appendTable L U false ce.isPersistable returned)
      (appendAll L U true false properties) .none))
  rw [appendObject_serializable hser hret hdoc k _ _ rfl] at hg hgx
  have hinternal : internal L U (.array table [(key,o)]) .none (Encoder.init []) =
      ((appendValue L U k o ((Encoder.init []).writeItem k)).1,
        (appendValue L U k o ((Encoder.init []).writeItem k)).2) := by
    rw [internal,closeFields_none (addId_appendAll _ _ _ _)]
    simp only [appendAll,hkey,List.append_nil]
  have hnested : nested.1 = (appendValue L U k o ((Encoder.init []).writeItem k)).1 ∧
      nested.2.2 = (appendValue L U k o ((Encoder.init []).writeItem k)).2.exceptions := by
    simp only [nested,zvalToBson,hinternal,and_self]
  have hvalue : root.1 = (internal L U o .none (Encoder.init [])).1 ∧
      root.2.2 = (internal L U o .none (Encoder.init [])).2.exceptions := ⟨rfl,rfl⟩
  refine ⟨?_,?_,fun hp => ?_⟩
  · rw [hnested.1,hvalue.1,hroot,hfields,appendValue,hg]
    rfl
  · rw [hnested.2,hvalue.2,hroot,appendValue,hgx,← hbelow.exceptions]
    rfl
  · rw [hvalue.1,internal_serializable hser hret .none rfl]
    have hm := odm_notMem_appendTable (L:=L) (U:=U) returned (Encoder.init [])
    simp only [withOdm,hp,if_true,List.map_cons]
    rw [odmField,List.count_cons_self,List.count_eq_zero.mpr hm]

/-- A Persistable object that returned a subclass instance with a public property only. -/
theorem nested_agrees_root_person :
    let o : Zval := .object .person (some 1) []
      (.object { ClassEntry.stdClass with name := ascii "Row" } none
        [(.str (ascii "name"),.string (ascii "x"))] .null)
    let root := zvalToBson .ascii (.keeping .person) o .none []
    let nested := zvalToBson .ascii (.keeping .person) (.array none [(.str (ascii "k"),o)]) .none []
    nested.1 = [(CString.lit "k",.document root.1)] ∧
      nested.2.2 = pendingUnder (CString.lit "k") root.2.2 ∧
      (ClassEntry.person.isPersistable = true →
        (root.1.map Prod.fst).count odmFieldName = 1) :=
  nested_agrees_root .ascii (.keeping .person) .person (some 1) [] _ none (.str (ascii "k"))
    (CString.lit "k") rfl rfl rfl rfl
    { not_type := fun _ _ _ _ h => by injection h with h; subst h; rfl
      no_odmField := fun _ => by decide
      no_mangled := fun _ _ _ _ h s hs => by
        injection h with _ _ h
        subst h
        have hkeys : reachedKeys [(.str (ascii "name"),.string (ascii "x"))] =
            [.str (ascii "name")] := by decide
        rw [hkeys,List.mem_singleton] at hs
        injection hs with hs
        subst hs
        decide
      spares := fun t _ ht => by
        have hmet : Met.table t ∈ [Met.name (CString.lit "name")] := ht
        simp at hmet }

/-- The class name of a Persistable object stands twice in the embedded document when its
`bsonSerialize()` returned the key `__pclass`. -/
theorem nested_disagrees_root :
    ¬ ∀ (L : Libbson) (U : Userland) (ce : ClassEntry) (ht : Option ℕ)
      (properties : List (Key × Zval)) (returned : Zval) (table : Option ℕ) (key : Key)
      (k : CString), inspectKey false false key = .append k → ce.isSerializable = true →
      returned.isArrayOrStdClass = true → (ce.isPersistable || !returned.isBsonArray) = true →
      (zvalToBson L U (.array table [(key,.object ce ht properties returned)]) .none []).1 =
        [(k,.document (zvalToBson L U (.object ce ht properties returned) .none []).1)] := by
  intro h
  have hk := h .ascii (.keeping .person) .person none []
    (.array none [(.str odmFieldName.bytes,.long 1)]) none (.str (ascii "k"))
    (CString.lit "k") rfl rfl rfl rfl
  injection hk with hk
  injection hk with _ hk
  injection hk with hk
  exact absurd (congrArg List.length hk) (by decide)

end Phongo
