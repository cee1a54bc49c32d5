import Mathlib.Tactic.Common
import Phongo.Bson.Data
import Phongo.Bson.Walk

/-! Encoding one level further down.
An encoding below a key runs the same loops over the same tables: its field path has the key in
front, and the table of the object it is in is under protection. -/
namespace Phongo

section Decoding
variable {L : Libbson} {U : Userland} (k : CString)

/-- The same pending exceptions, those of the encoder reported from below `k`. -/
def pendingUnder (eg : Pending) : Pending := eg.map (Exception.under k)

@[simp] theorem pendingUnder_eq_nil {eg : Pending} : pendingUnder k eg = [] ↔ eg = [] := by
  simp [pendingUnder]

@[simp] theorem pendingUnder_thrownBy (ids : List ℕ) :
    pendingUnder k (thrownBy ids) = thrownBy ids := by
  simp [pendingUnder,thrownBy,Function.comp_def,Exception.under]

theorem pendingUnder_append (eg eg' : Pending) :
    pendingUnder k (eg ++ eg') = pendingUnder k eg ++ pendingUnder k eg' := List.map_append

theorem pendingUnder_throw (domain : ErrorDomain) (format : String) (args : List Arg)
    (eg : Pending) : pendingUnder k (throwException domain format args eg) =
      throwException domain format (args.map (Arg.under k)) (pendingUnder k eg) := rfl

def Decoder.under (dec : Decoder) : Decoder :=
  { dec with exceptions := pendingUnder k dec.exceptions }

def Visited.under (r : Visited) : Visited := { r with decoder := r.decoder.under k }

/-- A visit that neither looks at the exceptions pending nor throws from the encoder's path. -/
def Visit.Uniform (visit : Visit) : Prop :=
  ∀ state dec, visit state (dec.under k) = (visit state dec).under k

theorem unserializeAs_under (ce : Option ClassEntry) (z : Zval) (eg : Pending) :
    U.unserializeAs ce z (pendingUnder k eg) =
      ((U.unserializeAs ce z eg).1,pendingUnder k (U.unserializeAs ce z eg).2) := by
  cases ce with
  | none => rfl
  | some ce =>
    by_cases he : eg = []
    · simp [Userland.unserializeAs,Userland.unserialize,he]
    · simp [Userland.unserializeAs,Userland.unserialize,he]

theorem finishDocument_under (type : TypemapType) (ce : Option ClassEntry) (z : Zval)
    (eg : Pending) : finishDocument U type ce z (pendingUnder k eg) =
      ((finishDocument U type ce z eg).1,pendingUnder k (finishDocument U type ce z eg).2) := by
  cases type <;> first | rfl | exact unserializeAs_under k ce z eg

theorem finishArray_under (type : TypemapType) (ce : Option ClassEntry) (z : Zval)
    (eg : Pending) : finishArray U type ce z (pendingUnder k eg) =
      ((finishArray U type ce z eg).1,pendingUnder k (finishArray U type ce z eg).2) := by
  cases type <;> first | rfl | exact unserializeAs_under k ce z eg

theorem visitDocument_uniform {children : Visit} (key : CString) (h : children.Uniform k) :
    (visitDocument U key children).Uniform k := by
  intro state dec
  have hpush : (dec.under k).push key .document = (dec.push key .document).under k := rfl
  unfold visitDocument
  rw [hpush,h]
  by_cases hr : (children ⟨.array none [],state.map,none,false⟩
      (dec.push key .document)).result = .finished
  · simp only [Visited.under,Decoder.under,hr,if_true,finishDocument_under]
    rfl
  · simp only [Visited.under,Decoder.under,hr,if_false]

theorem visitArray_uniform {children : Visit} (key : CString) (h : children.Uniform k) :
    (visitArray U key children).Uniform k := by
  intro state dec
  have hpush : (dec.under k).push key .array = (dec.push key .array).under k := rfl
  unfold visitArray
  rw [hpush,h]
  by_cases hr : (children ⟨.array none [],state.map,none,true⟩
      (dec.push key .array)).result = .finished
  · simp only [Visited.under,Decoder.under,hr,if_true,finishArray_under]
    rfl
  · simp only [Visited.under,Decoder.under,hr,if_false]

theorem bsonToZvalRoot_under {children : Visit} (h : children.Uniform k) (offset : ℕ → ℕ)
    (exhausted : Bool) (state : BsonState) (eg : Pending) :
    let r := bsonToZvalRoot U offset children exhausted state eg
    bsonToZvalRoot U offset children exhausted state (pendingUnder k eg) =
      ({ r.1 with exceptions := pendingUnder k r.1.exceptions },r.2) := by
  have hu : children { state with zchild := .array none [] }
      ⟨FieldPath.alloc,pendingUnder k eg,[]⟩ =
      (children { state with zchild := .array none [] } ⟨FieldPath.alloc,eg,[]⟩).under k :=
    h _ ⟨FieldPath.alloc,eg,[]⟩
  unfold bsonToZvalRoot
  rw [hu]
  generalize children { state with zchild := .array none [] } ⟨FieldPath.alloc,eg,[]⟩ = root
  by_cases hr : root.result = .finished
  · simp only [Visited.under,Decoder.under,hr,if_true,finishDocument_under]
    cases exhausted <;> rfl
  · simp only [Visited.under,Decoder.under,hr,if_false,pendingUnder_eq_nil]
    by_cases he : root.decoder.exceptions = []
    · simp [he,Decoder.throw,throwException,pendingUnder,Exception.under,Arg.under]
    · simp only [he,if_false]

theorem visitBinary_uniform (key : CString) (subtype : UInt8) (data : Bytes) :
    (visitBinary U key subtype data).Uniform k := by
  intro state dec
  unfold visitBinary Userland.autoload
  by_cases hclass : subtype = 0x80 ∧ key = odmFieldName
  · simp only [hclass,and_self,if_true]
    cases U.lookupClass data with
    | ok ce => rfl
    | error thrown =>
      simp only [visitScalar,Visited.under,Decoder.under,Decoder.writeItem,pendingUnder_append,
        pendingUnder_thrownBy]
  · simp only [hclass,if_false]
    rfl

theorem visit_uniform (L : Libbson) (U : Userland) :
    (∀ v n key, (visitField L U n key v).Uniform k) ∧
    (∀ d n, (visitAll L U n d).Uniform k) := by
  refine BsonValue.induction ?leaf ?document ?array ?scope ?nil ?cons
  case leaf =>
    intro v hv n key
    cases v with
    | document | array | codeWithScope => exact hv.elim
    | binary subtype data => exact visitBinary_uniform k key subtype data
    | _ => exact fun _ _ => rfl
  case document => exact fun d ih n key => visitDocument_uniform k key (ih 0)
  case array => exact fun d ih n key => visitArray_uniform k key (ih 0)
  case scope =>
    intro c s ih n key state dec
    have hr := bsonToZvalRoot_under (U:=U) k (ih 0) (L.offset s) true BsonState.init
      dec.exceptions
    have hd : (dec.under k).exceptions = pendingUnder k dec.exceptions := rfl
    rw [visitField]
    simp only [visitCodewscope,hd,hr]
    split <;> rfl
  case nil => exact fun n state dec => rfl
  case cons =>
    intro key v rest ihv ihd n state dec
    have he : (dec.under k).enterVisitor key = (dec.enterVisitor key).under k := rfl
    simp only [visitAll,he,ihv n key state (dec.enterVisitor key)]
    by_cases hvalid : (L.keyValid key && L.textValid v) = true
    · simp only [hvalid,if_true]
      by_cases hr : (visitField L U n key v state (dec.enterVisitor key)).result = .finished
      · simp only [Visited.under,hr,if_true]
        exact ihd (n+1) _ _
      · simp only [Visited.under,hr,if_false]
    · simp only [hvalid]
      rfl

theorem bsonToZvalEx_under (input : BsonInput) (state : BsonState) (eg : Pending) :
    (bsonToZvalEx L U input state (pendingUnder k eg)).exceptions =
      pendingUnder k (bsonToZvalEx L U input state eg).exceptions := by
  cases input with
  | unreadable => rfl
  | uniterable => rfl
  | read d exhausted =>
    simp only [bsonToZvalEx,
      bsonToZvalRoot_under k ((visit_uniform k L U).2 d 0) (L.offset d) exhausted state eg]

end Decoding

section Simulation
variable {L : Libbson} {U : Userland} {k : CString} {own : Option ℕ} {path : List CString}
  {e e' : Encoder}

/-- The second encoder does below `k`, with the table `own` protected, what the first does at
the root. -/
structure Below (k : CString) (own : Option ℕ) (path : List CString) (e e' : Encoder) :
    Prop where
  holds : e.fieldPath.Holds path
  holds_below : e'.fieldPath.Holds (k::path)
  exceptions : e'.exceptions = pendingUnder k e.exceptions
  protectedTables : e'.protectedTables = e.protectedTables ++ own.toList
  generatedOids : e'.generatedOids = e.generatedOids
  bsonOut : e'.bsonOut = e.bsonOut

namespace Below

theorem writeItem (h : Below k own path e e') (key : CString) :
    Below k own path (e.writeItem key) (e'.writeItem key) :=
  { h with holds := h.holds.writeItem key, holds_below := h.holds_below.writeItem key }

theorem enter (h : Below k own path e e') (key : CString) (type : ItemType) :
    Below k own (path ++ [key]) ((e.writeItem key).enter type) ((e'.writeItem key).enter type) :=
  { h with holds := h.holds.push key type, holds_below := h.holds_below.push key type }

theorem leave {key : CString} (h : Below k own (path ++ [key]) e e') :
    Below k own path e.leave e'.leave :=
  { h with holds := h.holds.leave, holds_below := h.holds_below.leave }

theorem throw (h : Below k own path e e') (format : String) {args args' : List Arg}
    (ha : args' = args.map (Arg.under k)) :
    Below k own path (e.throw format args) (e'.throw format args') := by
  refine { h with exceptions := ?_ }
  simp only [Encoder.throw,h.exceptions,ha,← pendingUnder_throw]

theorem asString (h : Below k own path e e') (key : CString) :
    Arg.path (e'.writeItem key).fieldPath.asString =
      (Arg.path (e.writeItem key).fieldPath.asString).under k := by
  have hp : (e.writeItem key).fieldPath.asString = path ++ [key] :=
    h.holds.asString_writeItem key
  have hp' : (e'.writeItem key).fieldPath.asString = k::path ++ [key] :=
    h.holds_below.asString_writeItem key
  rw [hp,hp']
  rfl

theorem exceptions_eq_nil (h : Below k own path e e') : e'.exceptions = [] ↔ e.exceptions = [] := by
  rw [h.exceptions,pendingUnder_eq_nil]

end Below

/-- `f` and `f'` append the same elements at both places. -/
def AppendsAlike (k : CString) (own : Option ℕ) (f f' : Append) : Prop :=
  ∀ path e e', Below k own path e e' → (f e).1 = (f' e').1 ∧ Below k own path (f e).2 (f' e').2

/-- The same for steps taken once the key is written to the path. -/
def AppendsAlikeAt (k : CString) (own : Option ℕ) (key : CString) (f f' : Append) : Prop :=
  ∀ path e e', Below k own path e e' →
    (f (e.writeItem key)).1 = (f' (e'.writeItem key)).1 ∧
      Below k own path (f (e.writeItem key)).2 (f' (e'.writeItem key)).2

def LoopsAlike (k : CString) (own : Option ℕ) (f f' : Loop) : Prop :=
  ∀ addId path e e', Below k own path e e' →
    (f addId e).fields = (f' addId e').fields ∧ (f addId e).addId = (f' addId e').addId ∧
      (f addId e).aborted = (f' addId e').aborted ∧
      Below k own path (f addId e).encoder (f' addId e').encoder

theorem AppendsAlike.at {f f' : Append} (h : AppendsAlike k own f f') (key : CString) :
    AppendsAlikeAt k own key f f' := fun path _ _ hb => h path _ _ (hb.writeItem key)

theorem appendElement_alike (key : CString) (v : BsonValue) :
    AppendsAlike k own (appendElement key v) (appendElement key v) := fun _ _ _ h => ⟨rfl,h⟩

theorem appendInt_alike (key : CString) (n : Int64) :
    AppendsAlike k own (appendInt key n) (appendInt key n) := by
  unfold appendInt
  split <;> exact appendElement_alike key _

theorem appendString_alike (key : CString) (s : Bytes) :
    AppendsAlikeAt k own key (appendString L key s) (appendString L key s) := by
  intro path e e' h
  unfold appendString
  split
  · exact ⟨rfl,h.writeItem key⟩
  · exact ⟨rfl,(h.writeItem key).throw _ (by rw [h.asString]; rfl)⟩

theorem throwUnsupportedType_alike (key : CString) (number : ℤ) (z : Zval) :
    AppendsAlikeAt k own key (throwUnsupportedType number z) (throwUnsupportedType number z) :=
  fun _ _ _ h => ⟨rfl,(h.writeItem key).throw _ (by rw [h.asString]; rfl)⟩

theorem appendDocument_alike {f f' : Append} (key : CString) (h : AppendsAlike k own f f') :
    AppendsAlike k own (appendDocument key f) (appendDocument key f') := fun path e e' hb => by
  obtain ⟨hd,hb'⟩ := h path e e' hb
  exact ⟨by simp [appendDocument,hd],hb'⟩

theorem appendArray_alike {f f' : Append} (key : CString) (h : AppendsAlike k own f f') :
    AppendsAlike k own (appendArray key f) (appendArray key f') := fun path e e' hb => by
  obtain ⟨hd,hb'⟩ := h path e e' hb
  exact ⟨by simp [appendArray,hd],hb'⟩

/-- A table other than `own` is protected at both places or at neither. -/
theorem guarded_alike {f f' : Append} {ht : Option ℕ} (hne : ∀ t, own = some t → ht ≠ some t)
    (key : CString) (type : ItemType) (h : AppendsAlike k own f f') :
    AppendsAlikeAt k own key (guarded ht type f) (guarded ht type f') := by
  intro path e e' hb
  cases ht with
  | none =>
    obtain ⟨hd,hb'⟩ := h _ _ _ (hb.enter key type)
    exact ⟨hd,hb'.leave⟩
  | some t =>
    have hown : t ∉ own.toList := fun hm => by
      rw [Option.mem_toList] at hm
      exact hne t hm rfl
    by_cases hm : t ∈ e.protectedTables
    · have hm' : t ∈ e'.protectedTables := by rw [hb.protectedTables]; simp [hm]
      have hg : ∀ f (e : Encoder), t ∈ e.protectedTables → guarded (some t) type f (e.writeItem key) =
          ([],(e.writeItem key).throw "Detected recursion for field path \"%s\""
            [.path (e.writeItem key).fieldPath.asString]) := fun f e hm => by
        have hm' : t ∈ (e.writeItem key).protectedTables := hm
        simp [guarded,Encoder.protectionBegin,hm']
      rw [hg f e hm,hg f' e' hm']
      exact ⟨rfl,(hb.writeItem key).throw _ (by rw [hb.asString]; rfl)⟩
    · have hm' : t ∉ e'.protectedTables := by rw [hb.protectedTables]; simp [hm,hown]
      have hg : ∀ f (e : Encoder), t ∉ e.protectedTables → guarded (some t) type f (e.writeItem key) =
          let r := f (({ e with protectedTables := t::e.protectedTables }.writeItem key).enter type)
          (r.1,r.2.leave.protectionEnd (some t)) := fun f e hm => by
        have hm' : t ∉ (e.writeItem key).protectedTables := hm
        simp only [guarded,Encoder.protectionBegin,hm',if_false]
        rfl
      have hp : Below k own path { e with protectedTables := t::e.protectedTables }
          { e' with protectedTables := t::e'.protectedTables } :=
        { hb with protectedTables := by simp [hb.protectedTables] }
      obtain ⟨hd,hb'⟩ := h _ _ _ (hp.enter key type)
      rw [hg f e hm,hg f' e' hm']
      refine ⟨hd,{ hb'.leave with protectedTables := ?_ }⟩
      have ht := hb'.leave.protectedTables
      simp only [Encoder.protectionEnd,ht,List.erase_append]
      split
      · rfl
      · rename_i hn
        rw [List.erase_of_not_mem hn,List.erase_of_not_mem hown]

theorem closeFields_alike {f f' : Loop} (flags : Flags) (h : LoopsAlike k own f f') :
    AppendsAlike k own (closeFields L f flags) (closeFields L f' flags) := by
  intro path e e' hb
  obtain ⟨hd,hid,hab,hb'⟩ := h flags.addId path e e' hb
  simp only [closeFields,finishFields,← hd,← hid,← hab,hb'.generatedOids]
  cases (f flags.addId e).aborted with
  | true => exact ⟨rfl,hb'⟩
  | false =>
    cases (f flags.addId e).addId <;> cases flags.returnId <;>
      exact ⟨rfl,hb'.holds,hb'.holds_below,hb'.exceptions,hb'.protectedTables,
        by first | rfl | exact hb'.generatedOids,
        by first | rfl | exact hb'.bsonOut⟩

theorem callBsonSerialize_alike (returned : Zval) (h : Below k own path e e') :
    (callBsonSerialize returned e).1 = (callBsonSerialize returned e').1 ∧
      Below k own path (callBsonSerialize returned e).2 (callBsonSerialize returned e').2 := by
  unfold callBsonSerialize
  by_cases he : e.exceptions = []
  · have he' := h.exceptions_eq_nil.mpr he
    simp only [he,he',if_true]
    cases returned with
    | undef thrown => exact ⟨rfl,{ h with exceptions := by simp }⟩
    | _ => exact ⟨rfl,h⟩
  · have he' : e'.exceptions ≠ [] := fun hn => he (h.exceptions_eq_nil.mp hn)
    simp only [he,he',if_false]
    exact ⟨trivial,h⟩

theorem hashOfBson_alike (obj : BsonObject) (h : Below k own path e e') :
    Below k own path (hashOfBson L U obj e) (hashOfBson L U obj e') := by
  match obj with
  | .javascript _ (some scope) =>
    exact { h with exceptions := by simp only [hashOfBson,h.exceptions,bsonToZvalEx_under] }
  | .javascript _ none => exact h
  | .objectId _ | .utcDateTime _ | .binary _ _ | .decimal128 _ _ | .int64 _ | .regex _ _
  | .timestamp _ _ | .maxKey | .minKey | .dbPointer _ _ | .symbol _ | .undefined => exact h

theorem withOdm_alike {f f' : Append} (ce : ClassEntry) (h : AppendsAlike k own f f') :
    AppendsAlike k own (fun e => let r := f e; if ce.isPersistable then (odmField ce::r.1,r.2) else r)
      (fun e => let r := f' e; if ce.isPersistable then (odmField ce::r.1,r.2) else r) := by
  intro path e e' hb
  obtain ⟨hd,hb'⟩ := h path e e' hb
  cases ce.isPersistable
  · exact ⟨hd,hb'⟩
  · exact ⟨by simp [hd],hb'⟩

theorem internalObject_alike (ce : ClassEntry) (returned : Zval) {table properties : Loop}
    (flags : Flags) (ht : ce.isSerializable = true → LoopsAlike k own table table)
    (hp : ce.isSerializable = false → LoopsAlike k own properties properties) :
    AppendsAlike k own (internalObject L ce returned table properties flags)
      (internalObject L ce returned table properties flags) := by
  intro path e e' hb
  unfold internalObject
  cases hs : ce.isSerializable with
  | false =>
    simp only [Bool.false_eq_true,if_false]
    split
    · exact ⟨rfl,hb.throw _ rfl⟩
    · exact closeFields_alike flags (hp hs) path e e' hb
  | true =>
    obtain ⟨hr,hb'⟩ := callBsonSerialize_alike returned hb
    simp only [if_true,← hr]
    split
    · exact ⟨rfl,hb'⟩
    · split
      · exact ⟨rfl,hb'.throw _ rfl⟩
      · exact withOdm_alike ce (closeFields_alike flags (ht hs)) path _ _ hb'

theorem appendObject_alike (key : CString) (ce : ClassEntry) (returned : Zval)
    {nested own' : Append} (hn : ce.isSerializable = true → AppendsAlike k own nested nested)
    (ho : ce.isSerializable = false → AppendsAlike k own own' own') :
    AppendsAlike k own (appendObject key ce returned nested own')
      (appendObject key ce returned nested own') := by
  intro path e e' hb
  unfold appendObject
  cases hs : ce.isSerializable with
  | false =>
    cases ce.isType with
    | true => exact ⟨rfl,hb.throw _ rfl⟩
    | false => exact appendDocument_alike key (ho hs) path e e' hb
  | true =>
    obtain ⟨hr,hb'⟩ := callBsonSerialize_alike returned hb
    simp only [ClassEntry.isType_of_isSerializable hs,if_true,← hr]
    split
    · exact ⟨rfl,hb'⟩
    · split
      · exact ⟨rfl,hb'.throw _ rfl⟩
      · split
        · exact appendDocument_alike key (withOdm_alike ce (hn hs)) path _ _ hb'
        · exact appendArray_alike key (hn hs) path _ _ hb'

/-- The table `own` is not among those met. -/
def Spares (own : Option ℕ) (met : List Met) : Prop := ∀ t, own = some t → Met.table t ∉ met

theorem Spares.left {met met' : List Met} (h : Spares own (met ++ met')) : Spares own met :=
  fun t ht hm => h t ht (List.mem_append_left _ hm)

theorem Spares.right {met met' : List Met} (h : Spares own (met ++ met')) : Spares own met' :=
  fun t ht hm => h t ht (List.mem_append_right _ hm)

theorem Spares.table {ht : Option ℕ} (h : Spares own (metTable ht)) :
    ∀ t, own = some t → ht ≠ some t := fun t hown hht => h t hown (by simp [metTable,hht])

/-- A value does the same below `k`, as long as it spares the table that is protected there
only. -/
def Zval.Alike (L : Libbson) (U : Userland) (k : CString) (own : Option ℕ) (z : Zval) : Prop :=
  (Spares own (metByValue L z) → ∀ key,
    AppendsAlikeAt k own key (appendValue L U key z) (appendValue L U key z)) ∧
  (Spares own (metByInternal L z) → ∀ flags,
    AppendsAlike k own (internal L U z flags) (internal L U z flags)) ∧
  (∀ skip, Spares own (metByTable L skip z) →
    LoopsAlike k own (appendTable L U false skip z) (appendTable L U false skip z))

def Zval.AllAlike (L : Libbson) (U : Userland) (k : CString) (own : Option ℕ)
    (els : List (Key × Zval)) : Prop :=
  ∀ fromProperties skip, Spares own (metByAll L fromProperties skip els) →
    LoopsAlike k own (appendAll L U fromProperties skip els)
      (appendAll L U fromProperties skip els)

theorem nothing_alike : LoopsAlike k own (fun addId e => ⟨[],addId,false,e⟩)
    (fun addId e => ⟨[],addId,false,e⟩) := fun _ _ _ _ h => ⟨rfl,rfl,rfl,h⟩

theorem appendNothing_alike : AppendsAlike k own appendNothing appendNothing :=
  fun _ _ _ h => ⟨rfl,h⟩

theorem bson_alike (obj : BsonObject) : (Zval.bson obj).Alike L U k own := by
  refine ⟨fun _ key path e e' h => ?_,fun _ flags path e e' h => ?_,fun _ _ => nothing_alike⟩
  · have hne : ∀ t, own = some t → (none : Option ℕ) ≠ some t := fun _ _ => by simp
    have hh := guarded_alike hne key .document
      (appendElement_alike (k:=k) key (bsonObjectValue L obj)) path _ _
      (hashOfBson_alike (L:=L) (U:=U) obj h)
    have hw : ∀ e : Encoder, hashOfBson L U obj (e.writeItem key) =
        (hashOfBson L U obj e).writeItem key := fun e => by
      unfold hashOfBson
      split <;> rfl
    simpa only [appendValue,hw] using hh
  · rw [internal]
    exact ⟨rfl,h.throw _ rfl⟩

theorem cursorId_alike (id : Int64) : (Zval.cursorId id).Alike L U k own := by
  refine ⟨fun _ key => guarded_alike (fun _ _ => by simp) key .document
    (appendElement_alike key _),fun _ flags => ?_,fun _ _ => nothing_alike⟩
  rw [internal]
  refine closeFields_alike flags fun addId path e e' h => ?_
  obtain ⟨hd,hb⟩ := (appendInt_alike (CString.lit "id") id).at (CString.lit "id") path e e' h
  exact ⟨hd,rfl,rfl,hb⟩

theorem leaf_alike {z : Zval} (hl : z.IsLeaf) : z.Alike L U k own := by
  have returns : ∀ _ : Flags, AppendsAlike k own appendNothing appendNothing :=
    fun _ => appendNothing_alike
  have nothing : ∀ _ : Bool, LoopsAlike k own (fun addId e => ⟨[],addId,false,e⟩)
      (fun addId e => ⟨[],addId,false,e⟩) := fun _ => nothing_alike
  cases z with
  | array | object | reference => exact hl.elim
  | undef | resource =>
    exact ⟨fun _ key => throwUnsupportedType_alike key _ _,fun _ => returns,fun skip _ => nothing skip⟩
  | null | bool | double =>
    exact ⟨fun _ key => (appendElement_alike key _).at key,fun _ => returns,fun skip _ => nothing skip⟩
  | long n =>
    exact ⟨fun _ key => (appendInt_alike key n).at key,fun _ => returns,fun skip _ => nothing skip⟩
  | string s =>
    exact ⟨fun _ key => appendString_alike key s,fun _ => returns,fun skip _ => nothing skip⟩
  | bson obj => exact bson_alike obj
  | cursorId id => exact cursorId_alike id

theorem array_alike (ht : Option ℕ) {els : List (Key × Zval)}
    (ih : Zval.AllAlike L U k own els) : (Zval.array ht els).Alike L U k own := by
  refine ⟨fun hs key => ?_,fun hs flags => closeFields_alike flags (ih false false hs),
    fun skip hs => ih false skip hs⟩
  rw [metByValue] at hs
  have hbody := closeFields_alike (L:=L) .none (ih false false hs.right)
  rw [appendValue]
  split
  · exact guarded_alike hs.left.table key .array (appendArray_alike key hbody)
  · exact guarded_alike hs.left.table key .document (appendDocument_alike key hbody)

theorem object_alike (ce : ClassEntry) (ht : Option ℕ) {properties : List (Key × Zval)}
    {returned : Zval} (ihp : Zval.AllAlike L U k own properties)
    (ihr : returned.Alike L U k own) :
    (Zval.object ce ht properties returned).Alike L U k own := by
  obtain ⟨-,hinternal,htable⟩ := ihr
  refine ⟨fun hs key => ?_,fun hs flags => ?_,fun skip hs => ihp false skip hs⟩
  · rw [metByValue] at hs
    rw [appendValue]
    refine guarded_alike hs.left.table key .document (appendObject_alike key ce returned
      (fun hce => hinternal (by simpa [hce] using hs.right) .none) fun hce => ?_)
    have hprops := ihp true false (by simpa [hce] using hs.right)
    exact internalObject_alike ce returned .none (fun hce' => by simp [hce] at hce')
      fun _ => hprops
  · rw [metByInternal] at hs
    rw [internal]
    exact internalObject_alike ce returned flags
      (fun hce => htable _ (by simpa [hce] using hs))
      fun hce => ihp true false (by simpa [hce] using hs)

theorem cons_alike {key : Key} {z : Zval} {rest : List (Key × Zval)}
    (ihz : z.Alike L U k own) (ihr : Zval.AllAlike L U k own rest) :
    Zval.AllAlike L U k own ((key,z)::rest) := by
  intro fromProperties skip hs addId path e e' h
  rw [metByAll] at hs
  simp only [appendAll]
  cases hk : inspectKey fromProperties skip key with
  | skip =>
    simp only [hk] at hs
    exact ihr fromProperties skip hs addId path e e' h
  | abort => exact ⟨rfl,rfl,rfl,h.throw _ rfl⟩
  | append name =>
    simp only [hk] at hs
    obtain ⟨hd,hb⟩ := ihz.1 hs.left.right name path e e' h
    obtain ⟨hd',hid,hab,hb'⟩ := ihr fromProperties skip hs.right
      (addId && key ≠ .str idName.bytes) path _ _ hb
    exact ⟨congrArg₂ (· ++ ·) hd hd',hid,hab,hb'⟩

/-- Every step of the encoder does the same below a key. -/
theorem append_alike (L : Libbson) (U : Userland) (k : CString) (own : Option ℕ) :
    (∀ z, Zval.Alike L U k own z) ∧ (∀ els, Zval.AllAlike L U k own els) := by
  refine Zval.induction ?leaf ?array ?object ?reference ?nil ?cons
  case leaf => exact fun z hl => leaf_alike hl
  case array => exact fun ht els ih => array_alike ht ih
  case object => exact fun ce ht _ _ ihp ihr => object_alike ce ht ihp ihr
  case reference =>
    intro z ih
    refine ⟨fun hs key => ?_,fun _ _ => appendNothing_alike,fun _ _ => nothing_alike⟩
    rw [appendValue]
    exact ih.1 hs key
  case nil => exact fun _ _ _ => nothing_alike
  case cons => exact fun key z rest ihz ihr => cons_alike ihz ihr

end Simulation

end Phongo
