import Mathlib.Tactic.Common
import Phongo.Bson.Pending
import Phongo.Bson.Walk

/-! When the driver can read back what it encoded.
String leaves are checked on the way out; names and the text inside value objects are not,
while the iterator checks all of them on the way in. -/
namespace Phongo

/-- Text of an encoding that `bson_iter_visit_all` will let through. -/
def Readable (L : Libbson) : Met → Prop
  | .table _ => True
  | .name key => L.keyValid key = true
  | .value v => L.textValid v = true

/-- Where `f` ends without an exception it began without one, and its elements can be visited
exactly if `p` holds. -/
def Append.DecodableIff (f : Append) (L : Libbson) (p : Prop) : Prop :=
  ∀ e, (f e).2.exceptions = [] → e.exceptions = [] ∧ (acceptsAll L (f e).1 = true ↔ p)

def Loop.DecodableIff (f : Loop) (L : Libbson) (p : Prop) : Prop :=
  ∀ addId e, (f addId e).encoder.exceptions = [] → e.exceptions = [] ∧
    (f addId e).aborted = false ∧ (acceptsAll L (f addId e).fields = true ↔ p)

section
variable {L : Libbson} {U : Userland} {p q : Prop}

theorem acceptsAll_append (d d' : Doc) :
    acceptsAll L (d ++ d') = (acceptsAll L d && acceptsAll L d') := by
  induction d with
  | nil => rfl
  | cons e d ih =>
    obtain ⟨key,v⟩ := e
    simp [acceptsAll,ih,Bool.and_assoc]

theorem acceptsAll_singleton (key : CString) (v : BsonValue) :
    acceptsAll L [(key,v)] = (L.keyValid key && L.textValid v && accepts L v) := by
  simp [acceptsAll]

theorem keyValid_lit (hascii : L.AcceptsAscii) {key : CString}
    (h : ∀ b ∈ key.bytes, b < 128) : L.keyValid key = true := by
  have hk : ∀ b ∈ key.bytes, b ≠ 0 ∧ b < 128 := fun b hb =>
    ⟨fun h0 => key.zero_notMem (h0 ▸ hb),h b hb⟩
  rw [Libbson.keyValid,hascii _ _ hk,Bool.or_true]

theorem keyValid_odm (hascii : L.AcceptsAscii) : L.keyValid odmFieldName = true :=
  keyValid_lit hascii (by decide +kernel)

theorem Append.DecodableIff.congr {f : Append} (h : f.DecodableIff L p) (hpq : p ↔ q) :
    f.DecodableIff L q := fun e he => ⟨(h e he).1,(h e he).2.trans hpq⟩

theorem appendElement_decodable (key : CString) (v : BsonValue) :
    (appendElement key v).DecodableIff L
      (L.keyValid key = true ∧ L.textValid v = true ∧ accepts L v = true) := fun e he =>
  ⟨he,by simp [appendElement,acceptsAll_singleton,Bool.and_eq_true,and_assoc]⟩

theorem appendInt_decodable (key : CString) (n : Int64) :
    (appendInt key n).DecodableIff L (L.keyValid key = true) := by
  unfold appendInt
  split
  · exact (appendElement_decodable key _).congr (by simp [Libbson.textValid,accepts])
  · exact (appendElement_decodable key _).congr (by simp [Libbson.textValid,accepts])

theorem appendString_decodable (key : CString) (s : Bytes) :
    (appendString L key s).DecodableIff L (L.keyValid key = true) := by
  intro e he
  unfold appendString at he ⊢
  split at he
  · rename_i hs
    simp only [hs,if_true] at he ⊢
    exact ⟨he,by simp [acceptsAll_singleton,Libbson.textValid,accepts,hs]⟩
  · exact absurd he (throw_ne_nil _ _ _)

theorem throw_decodable (format : String) (args : Encoder → List Arg) :
    Append.DecodableIff (fun e => ([],e.throw format (args e))) L p := fun _ he =>
  absurd he (throw_ne_nil _ _ _)

theorem appendDocument_decodable {body : Append} (key : CString) (h : body.DecodableIff L p) :
    (appendDocument key body).DecodableIff L (L.keyValid key = true ∧ p) := fun e he => by
  obtain ⟨hb,hp⟩ := h e he
  exact ⟨hb,by simp [appendDocument,acceptsAll_singleton,Libbson.textValid,accepts,hp]⟩

theorem appendArray_decodable {body : Append} (key : CString) (h : body.DecodableIff L p) :
    (appendArray key body).DecodableIff L (L.keyValid key = true ∧ p) := fun e he => by
  obtain ⟨hb,hp⟩ := h e he
  exact ⟨hb,by simp [appendArray,acceptsAll_singleton,Libbson.textValid,accepts,hp]⟩

theorem guarded_decodable {body : Append} (ht : Option ℕ) (type : ItemType)
    (h : body.DecodableIff L p) : (guarded ht type body).DecodableIff L p := by
  intro e he
  cases ht with
  | none => exact h (e.enter type) he
  | some ht =>
    by_cases hm : ht ∈ e.protectedTables
    · simp [guarded,Encoder.protectionBegin,hm,Encoder.throw,throwException] at he
    · simp only [guarded,Encoder.protectionBegin,hm,if_false] at he ⊢
      exact h _ he

theorem closeFields_decodable (hascii : L.AcceptsAscii) {loop : Loop} (flags : Flags)
    (h : loop.DecodableIff L p) : (closeFields L loop flags).DecodableIff L p := by
  intro e he
  have hid : L.keyValid idName = true := keyValid_lit hascii (by decide +kernel)
  rw [exceptions_closeFields] at he
  obtain ⟨hb,hab,hp⟩ := h flags.addId e he
  refine ⟨hb,?_⟩
  simp only [closeFields,finishFields,hab,Bool.false_eq_true,if_false]
  split <;> split <;>
    simp [acceptsAll_append,acceptsAll_singleton,hid,Libbson.textValid,accepts,hp]

theorem withOdm_decodable (hascii : L.AcceptsAscii) {body : Append} (ce : ClassEntry)
    (h : body.DecodableIff L p) : Append.DecodableIff (fun e =>
      let r := body e
      if ce.isPersistable then (odmField ce::r.1,r.2) else r) L p := by
  intro e he
  cases hce : ce.isPersistable with
  | false => simpa [hce] using h e (by simpa [hce] using he)
  | true =>
    simp only [hce,if_true] at he ⊢
    obtain ⟨hb,hp⟩ := h e he
    exact ⟨hb,by simp [odmField,acceptsAll,keyValid_odm hascii,Libbson.textValid,accepts,hp]⟩

theorem callBsonSerialize_quiet {returned : Zval} {e : Encoder}
    (h : (callBsonSerialize returned e).2.exceptions = []) :
    e.exceptions = [] ∧ (callBsonSerialize returned e).1 = returned ∧
      ((callBsonSerialize returned e).2 = e ∨ returned.isUndef) := by
  by_cases he : e.exceptions = []
  · cases returned <;> simp_all [callBsonSerialize,Zval.isUndef]
  · simp [callBsonSerialize,he] at h

theorem internalObject_decodable (hascii : L.AcceptsAscii) (ce : ClassEntry) (returned : Zval)
    {table properties : Loop} (flags : Flags) (ht : table.DecodableIff L p)
    (hu : returned.isUndef → p) (hp : properties.DecodableIff L q) :
    (internalObject L ce returned table properties flags).DecodableIff L
      (if ce.isSerializable then p else q) := by
  intro e he
  unfold internalObject at he ⊢
  cases hs : ce.isSerializable with
  | false =>
    simp only [hs,Bool.false_eq_true,if_false] at he ⊢
    split at he
    · exact absurd he (throw_ne_nil _ _ _)
    · rename_i hn
      simp only [hn]
      exact closeFields_decodable hascii flags hp e he
  | true =>
    simp only [hs,if_true] at he ⊢
    split at he
    · rename_i hundef
      obtain ⟨hb,hr,-⟩ := callBsonSerialize_quiet he
      simp only [hundef,if_true]
      rw [hr] at hundef
      exact ⟨hb,by simp [acceptsAll,hu hundef]⟩
    · rename_i hundef
      split at he
      · exact absurd he (throw_ne_nil _ _ _)
      · rename_i harr
        simp only [hundef,harr]
        obtain ⟨hb,hp'⟩ := withOdm_decodable hascii ce (closeFields_decodable hascii flags ht)
          (callBsonSerialize returned e).2 he
        exact ⟨(callBsonSerialize_quiet hb).1,hp'⟩

theorem appendObject_decodable (hascii : L.AcceptsAscii) (key : CString) (ce : ClassEntry)
    (returned : Zval) {nested own : Append} (hn : nested.DecodableIff L p)
    (hu : returned.isUndef → p) (ho : own.DecodableIff L q) :
    (appendObject key ce returned nested own).DecodableIff L
      (((ce.isSerializable && returned.isUndef) = true ∨ L.keyValid key = true) ∧
        if ce.isSerializable then p else q) := by
  intro e he
  unfold appendObject at he ⊢
  cases hs : ce.isSerializable with
  | false =>
    cases ht : ce.isType with
    | true =>
      simp only [hs,ht,if_true,Bool.false_eq_true,if_false] at he
      exact absurd he (throw_ne_nil _ _ _)
    | false =>
      simp only [hs,ht,Bool.false_eq_true,if_false,Bool.false_and,false_or] at he ⊢
      exact appendDocument_decodable key ho e he
  | true =>
    have ht := ClassEntry.isType_of_isSerializable hs
    simp only [hs,ht,if_true,Bool.true_and] at he ⊢
    split at he
    · rename_i hundef
      obtain ⟨hb,hr,-⟩ := callBsonSerialize_quiet he
      simp only [hundef,if_true]
      rw [hr] at hundef
      exact ⟨hb,by simp [acceptsAll,hundef,hu hundef]⟩
    · rename_i hundef
      split at he
      · exact absurd he (throw_ne_nil _ _ _)
      · rename_i harr
        simp only [hundef,harr]
        split at he
        · rename_i hdoc
          simp only [hdoc,if_true]
          obtain ⟨hb,hp'⟩ := appendDocument_decodable key (withOdm_decodable hascii ce hn)
            (callBsonSerialize returned e).2 he
          obtain ⟨hb',hr,-⟩ := callBsonSerialize_quiet hb
          rw [hr] at hundef
          exact ⟨hb',by simpa [hundef] using hp'⟩
        · rename_i hdoc
          simp only [hdoc]
          obtain ⟨hb,hp'⟩ := appendArray_decodable key hn (callBsonSerialize returned e).2 he
          obtain ⟨hb',hr,-⟩ := callBsonSerialize_quiet hb
          rw [hr] at hundef
          exact ⟨hb',by simpa [hundef] using hp'⟩

theorem hashOfBson_quiet {obj : BsonObject} {e : Encoder}
    (h : (hashOfBson L U obj e).exceptions = []) :
    e.exceptions = [] ∧ accepts L (bsonObjectValue L obj) = true := by
  match obj, h with
  | .javascript code (some scope), h =>
    have hscope : (bsonToZvalEx L U (.read scope true) BsonState.init e.exceptions).exceptions = [] := h
    cases ha : acceptsAll L scope with
    | false => exact absurd hscope (bsonToZvalRoot_rejects ha true BsonState.init e.exceptions).2.1
    | true =>
      obtain ⟨thrown,heg,-⟩ := throws_bsonToZvalEx (L:=L) (U:=U) (.read scope true) BsonState.init
        e.exceptions
      rw [hscope] at heg
      exact ⟨(List.append_eq_nil_iff.mp heg.symm).2,ha⟩
  | .javascript _ none, h => exact ⟨h,rfl⟩
  | .objectId _, h | .utcDateTime _, h | .binary _ _, h | .decimal128 _ _, h | .int64 _, h
  | .regex _ _, h | .timestamp _ _, h | .maxKey, h | .minKey, h | .dbPointer _ _, h
  | .symbol _, h | .undefined, h => exact ⟨h,rfl⟩

theorem appendBson_decodable (key : CString) (obj : BsonObject) :
    (appendValue L U key (.bson obj)).DecodableIff L
      (L.keyValid key = true ∧ L.textValid (bsonObjectValue L obj) = true) := by
  intro e he
  rw [appendValue] at he ⊢
  obtain ⟨hb,hp⟩ := guarded_decodable none .document
    (appendElement_decodable (L:=L) key (bsonObjectValue L obj)) _ he
  obtain ⟨hb',ha⟩ := hashOfBson_quiet hb
  exact ⟨hb',hp.trans (by simp [ha])⟩

theorem nothing_decodable : Loop.DecodableIff (fun addId e => ⟨[],addId,false,e⟩) L
    (∀ m ∈ ([] : List Met), Readable L m) := fun addId e he =>
  ⟨he,rfl,by simp [acceptsAll]⟩

theorem appendNothing_decodable :
    appendNothing.DecodableIff L (∀ m ∈ ([] : List Met), Readable L m) := fun e he =>
  ⟨he,by simp [appendNothing,acceptsAll]⟩

theorem readable_metTable (ht : Option ℕ) : ∀ m ∈ metTable ht, Readable L m := by
  intro m hm
  obtain ⟨t,-,rfl⟩ := List.mem_map.mp hm
  trivial

/-- A value, encoded under a name, as a document or as the table of an object. -/
def Zval.Decodable (L : Libbson) (U : Userland) (z : Zval) : Prop :=
  (∀ key, (appendValue L U key z).DecodableIff L
    ((z.isSkipped = true ∨ L.keyValid key = true) ∧ ∀ m ∈ metByValue L z, Readable L m)) ∧
  (∀ flags, (internal L U z flags).DecodableIff L (∀ m ∈ metByInternal L z, Readable L m)) ∧
  (∀ skip, (appendTable L U false skip z).DecodableIff L
    (∀ m ∈ metByTable L skip z, Readable L m))

def Zval.AllDecodable (L : Libbson) (U : Userland) (els : List (Key × Zval)) : Prop :=
  ∀ fromProperties skip, (appendAll L U fromProperties skip els).DecodableIff L
    (∀ m ∈ metByAll L fromProperties skip els, Readable L m)

theorem cursorId_decodable (hascii : L.AcceptsAscii) (id : Int64) :
    (Zval.cursorId id).Decodable L U := by
  refine ⟨fun key => (guarded_decodable none .document (appendElement_decodable key _)).congr
    (by simp [Libbson.textValid,accepts,Zval.isSkipped,metByValue]),fun flags => ?_,
    fun _ => nothing_decodable⟩
  have hid : L.keyValid (CString.lit "id") = true := keyValid_lit hascii (by decide +kernel)
  rw [internal]
  refine closeFields_decodable hascii flags fun addId e he => ?_
  obtain ⟨hb,hp⟩ := appendInt_decodable (L:=L) (CString.lit "id") id
    (e.writeItem (CString.lit "id")) he
  exact ⟨hb,rfl,hp.trans (by simp [hid,metByInternal])⟩

theorem leaf_decodable (hascii : L.AcceptsAscii) {z : Zval}
    (hl : z.IsLeaf) : z.Decodable L U := by
  have returns : ∀ flags : Flags, appendNothing.DecodableIff L
      (∀ m ∈ ([] : List Met), Readable L m) := fun _ => appendNothing_decodable
  have nothing : ∀ skip : Bool, Loop.DecodableIff (fun addId e => ⟨[],addId,false,e⟩) L
      (∀ m ∈ ([] : List Met), Readable L m) := fun _ => nothing_decodable
  cases z with
  | array | object | reference => exact hl.elim
  | undef | resource => exact ⟨fun key => throw_decodable _ _,returns,nothing⟩
  | null | bool | double =>
    exact ⟨fun key => (appendElement_decodable key _).congr
      (by simp [Libbson.textValid,accepts,Zval.isSkipped,metByValue]),returns,nothing⟩
  | long n =>
    exact ⟨fun key => (appendInt_decodable key n).congr (by simp [Zval.isSkipped,metByValue]),
      returns,nothing⟩
  | string s =>
    exact ⟨fun key => (appendString_decodable key s).congr
      (by simp [Zval.isSkipped,metByValue]),returns,nothing⟩
  | bson obj =>
    refine ⟨fun key => (appendBson_decodable key obj).congr ?_,?_,nothing⟩
    · simp [Zval.isSkipped,metByValue,Readable]
    · intro flags
      rw [internal]
      exact throw_decodable _ _
  | cursorId id => exact cursorId_decodable hascii id

theorem array_decodable (hascii : L.AcceptsAscii) (ht : Option ℕ) {els : List (Key × Zval)}
    (ih : Zval.AllDecodable L U els) : (Zval.array ht els).Decodable L U := by
  refine ⟨fun key => ?_,fun flags => closeFields_decodable hascii flags (ih false false),
    fun skip => ih false skip⟩
  have hbody := closeFields_decodable hascii .none (ih false false)
  have hmet : (L.keyValid key = true ∧ ∀ m ∈ metByAll L false false els, Readable L m) ↔
      ((Zval.array ht els).isSkipped = true ∨ L.keyValid key = true) ∧
        ∀ m ∈ metByValue L (.array ht els), Readable L m := by
    have htable := readable_metTable (L:=L) ht
    simp only [Zval.isSkipped,metByValue,List.forall_mem_append,Bool.false_eq_true,false_or]
    tauto
  rw [appendValue]
  split
  · exact (guarded_decodable ht .array (appendArray_decodable key hbody)).congr hmet
  · exact (guarded_decodable ht .document (appendDocument_decodable key hbody)).congr hmet

theorem metByInternal_of_isUndef {returned : Zval} (hu : returned.isUndef = true) :
    ∀ m ∈ metByInternal L returned, Readable L m := by
  cases returned <;> simp_all [Zval.isUndef,metByInternal]

theorem metByTable_of_isUndef {returned : Zval} (skip : Bool) (hu : returned.isUndef = true) :
    ∀ m ∈ metByTable L skip returned, Readable L m := by
  cases returned <;> simp_all [Zval.isUndef,metByTable]

theorem object_decodable (hascii : L.AcceptsAscii) (ce : ClassEntry) (ht : Option ℕ)
    {properties : List (Key × Zval)} {returned : Zval} (ihp : Zval.AllDecodable L U properties)
    (ihr : returned.Decodable L U) : (Zval.object ce ht properties returned).Decodable L U := by
  obtain ⟨-,hinternal,htable⟩ := ihr
  have hown := fun flags => internalObject_decodable hascii ce returned flags
    (htable ce.isPersistable) (metByTable_of_isUndef ce.isPersistable) (ihp true false)
  refine ⟨fun key => ?_,fun flags => ?_,fun skip => ihp false skip⟩
  · have hobject := appendObject_decodable hascii key ce returned (hinternal .none)
      metByInternal_of_isUndef (hown .none)
    refine (guarded_decodable ht .document hobject).congr ?_
    have hmet := readable_metTable (L:=L) ht
    rw [metByValue,Zval.isSkipped]
    cases ce.isSerializable <;>
      simp only [List.forall_mem_append,Bool.false_eq_true,if_true,if_false] <;> tauto
  · rw [internal,metByInternal]
    refine (hown flags).congr ?_
    cases ce.isSerializable <;> simp

theorem cons_decodable {key : Key} {z : Zval} {rest : List (Key × Zval)}
    (ihz : z.Decodable L U) (ihr : Zval.AllDecodable L U rest) :
    Zval.AllDecodable L U ((key,z)::rest) := by
  intro fromProperties skip addId e he
  rw [appendAll] at he ⊢
  rw [metByAll]
  cases hk : inspectKey fromProperties skip key with
  | skip =>
    simp only [hk] at he ⊢
    exact ihr fromProperties skip addId e he
  | abort =>
    simp only [hk] at he
    exact absurd he (throw_ne_nil _ _ _)
  | append name =>
    simp only [hk] at he ⊢
    obtain ⟨hb,hab,hp⟩ := ihr fromProperties skip _ _ he
    obtain ⟨hb',hp'⟩ := ihz.1 name (e.writeItem name) hb
    refine ⟨hb',hab,?_⟩
    rw [acceptsAll_append,Bool.and_eq_true,hp,hp']
    have hname : Readable L (.name name) ↔ L.keyValid name = true := Iff.rfl
    cases z.isSkipped <;>
      simp only [List.forall_mem_append,List.forall_mem_singleton,List.nil_append,hname,
        Bool.false_eq_true,if_true,if_false,true_or,false_or,true_and]

/-- Every value, table and list of elements is decodable exactly if all it meets is readable. -/
theorem append_decodable (hascii : L.AcceptsAscii) :
    (∀ z, Zval.Decodable L U z) ∧ (∀ els, Zval.AllDecodable L U els) := by
  refine Zval.induction ?leaf ?array ?object ?reference ?nil ?cons
  case leaf => exact fun z hl => leaf_decodable hascii hl
  case array => exact fun ht els ih => array_decodable hascii ht ih
  case object => exact fun ce ht _ _ ihp ihr => object_decodable hascii ce ht ihp ihr
  case reference =>
    intro z ih
    refine ⟨fun key => ?_,fun _ => appendNothing_decodable,fun _ => nothing_decodable⟩
    rw [appendValue,metByValue,Zval.isSkipped]
    exact ih.1 key
  case nil => exact fun fromProperties skip => nothing_decodable
  case cons => exact fun key z rest ihz ihr => cons_decodable ihz ihr

end

/-- What was encoded without an exception can be decoded exactly if every name and every
payload of a value object met on the way is valid text; only an autoloader can throw then. -/
theorem decodable_iff_readable (L : Libbson) (U : Userland) (hascii : L.AcceptsAscii)
    (hquiet : U.Quiet) (data : Zval) (flags : Flags)
    (h : (zvalToBson L U data flags []).2.2 = []) :
    let decoded :=
      bsonToZvalEx L U (.read (zvalToBson L U data flags []).1 true) BsonState.init []
    (decoded.ok = true ∧ (U.Loads → decoded.exceptions = [])) ↔
      ∀ m ∈ metByInternal L data, Readable L m := by
  obtain ⟨-,hp⟩ := ((append_decodable hascii).1 data).2.1 flags (Encoder.init []) h
  rw [← hp]
  cases ha : acceptsAll L (internal L U data flags (Encoder.init [])).1 with
  | false =>
    have hr := (bsonToZvalRoot_rejects (U:=U) ha true BsonState.init []).1
    exact iff_of_false (fun hok => by simp [zvalToBson,bsonToZvalEx,hr] at hok) (by simp)
  | true =>
    obtain ⟨hok,-,heg⟩ := bsonToZvalEx_fresh (U:=U) ha Typemap.default []
    exact iff_of_true ⟨hok,fun hloads => heg.trans (materialiseRoot_quiet hquiet hloads _ _ _)⟩ rfl

theorem Userland.keeping_quiet (ce : ClassEntry) : (Userland.keeping ce).Quiet := fun ce' data => by
  unfold Userland.keeping
  dsimp only
  split <;> rfl

theorem Userland.keeping_loads (ce : ClassEntry) : (Userland.keeping ce).Loads := by
  intro name thrown h
  unfold Userland.keeping at h
  dsimp only at h
  split at h
  · cases h
  · cases h
    rfl

/-- A regular expression, a symbol and a list under ASCII names. -/
theorem decodable_iff_readable_ascii :
    let data : Zval := .array none [(.str (ascii "r"),.bson (.regex (.lit "a+") (.lit "i"))),
      (.int 7,.array none [(.int 0,.bson (.symbol (ascii "s")))])]
    let decoded := bsonToZvalEx .ascii (.keeping .person)
      (.read (zvalToBson .ascii (.keeping .person) data .none []).1 true) BsonState.init []
    (decoded.ok = true ∧ ((Userland.keeping .person).Loads → decoded.exceptions = [])) ↔
      ∀ m ∈ metByInternal .ascii data, Readable .ascii m :=
  decodable_iff_readable .ascii (.keeping .person) Libbson.ascii_acceptsAscii
    (Userland.keeping_quiet .person) _ .none (by decide)

/-- An array key that is no valid UTF-8 is encoded without a word and cannot be decoded. -/
theorem not_always_decodable :
    ¬ ∀ (L : Libbson) (U : Userland), L.AcceptsAscii → U.Quiet → ∀ (data : Zval) (flags : Flags),
      (zvalToBson L U data flags []).2.2 = [] →
        (bsonToZvalEx L U (.read (zvalToBson L U data flags []).1 true) BsonState.init []).ok =
          true := by
  intro h
  have hok := h .ascii (.keeping .person) Libbson.ascii_acceptsAscii
    (Userland.keeping_quiet .person) (.array none [(.str [128],.null)]) .none (by decide)
  revert hok
  decide

end Phongo
