import Mathlib.Tactic.Common
import Phongo.Bson.Encoding
import Phongo.Bson.Pending

/-! The other way round: an encoding that ends without an exception is complete. -/
namespace Phongo

mutual

/-- Every call of `bsonSerialize()` without a result has thrown. -/
def Zval.CallsThrow : Zval → Prop
  | .array _ els => Zval.AllCallsThrow els
  | .object _ _ properties returned =>
    returned ≠ .undef [] ∧ returned.CallsThrow ∧ Zval.AllCallsThrow properties
  | .reference z => z.CallsThrow
  | _ => True

def Zval.AllCallsThrow : List (Key × Zval) → Prop
  | [] => True
  | (_,z)::els => z.CallsThrow ∧ Zval.AllCallsThrow els

end

theorem ThrowsOnto.eq_nil {eg eg' : Pending} (h : ThrowsOnto eg eg') (he : eg' = []) : eg = [] := by
  obtain ⟨thrown,rfl,-⟩ := h
  exact (List.append_eq_nil_iff.mp he).2

section
variable {L : Libbson} {U : Userland} {e : Encoder}

theorem guarded_noException {ht : Option ℕ} {type : ItemType} {body : Append}
    (h : (guarded ht type body e).2.exceptions = []) :
    (∀ t ∈ ht, t ∉ e.protectedTables) ∧ ∃ e' : Encoder,
      e'.protectedTables = ht.toList ++ e.protectedTables ∧ (body e').2.exceptions = [] := by
  cases ht with
  | none => exact ⟨by simp,e.enter type,rfl,h⟩
  | some t =>
    by_cases ht : t ∈ e.protectedTables
    · simp only [guarded,Encoder.protectionBegin,ht,if_true] at h
      exact absurd h (throw_ne_nil _ _ _)
    · simp only [guarded,Encoder.protectionBegin,ht,if_false] at h
      exact ⟨by simpa using ht,
        ({ e with protectedTables := t::e.protectedTables } : Encoder).enter type,rfl,h⟩

theorem callBsonSerialize_noException {returned : Zval}
    (hcall : returned ≠ .undef [])
    (h : (callBsonSerialize returned e).2.exceptions = []) :
    callBsonSerialize returned e = (returned,e) ∧ returned.isUndef = false := by
  have he : e.exceptions = [] := (throws_callBsonSerialize returned e).eq_nil h
  cases returned with
  | undef thrown =>
    simp only [callBsonSerialize,he,if_true,thrownBy,List.map_eq_nil_iff] at h
    exact absurd (by rw [h]) hcall
  | _ => exact ⟨by simp [callBsonSerialize,he],rfl⟩

theorem throwExpectedArray_ne_nil (ce : ClassEntry) (returned : Zval) (e : Encoder) :
    (throwExpectedArray ce returned e).exceptions ≠ [] := throw_ne_nil _ _ _

/-- An object whose `bsonSerialize()` returned a table to encode. -/
theorem internalObject_serializable {ce : ClassEntry} {returned : Zval}
    (hser : ce.isSerializable = true) (harray : returned.isArrayOrStdClass = true)
    (he : e.exceptions = []) (table properties : Loop) (flags : Flags) :
    internalObject L ce returned table properties flags e =
      ((if ce.isPersistable then [odmField ce] else []) ++ (closeFields L table flags e).1,
        (closeFields L table flags e).2) := by
  obtain ⟨hcall,hundef⟩ := callBsonSerialize_complete he harray
  unfold internalObject
  simp only [hser,hcall,hundef,harray,if_true,Bool.not_true,Bool.false_eq_true,if_false]
  split <;> rfl

theorem internalObject_plain {ce : ClassEntry} (hser : ce.isSerializable = false)
    (htype : ce.isType = false) (returned : Zval) (table properties : Loop) (flags : Flags) :
    internalObject L ce returned table properties flags = closeFields L properties flags := by
  funext e
  simp [internalObject,hser,htype]

theorem internalObject_noException {ce : ClassEntry} {returned : Zval} {table properties : Loop}
    {flags : Flags} (hcall : returned ≠ .undef [])
    (htable : ∀ e, ThrowsOnto e.exceptions (closeFields L table flags e).2.exceptions)
    (h : (internalObject L ce returned table properties flags e).2.exceptions = []) :
    (ce.isSerializable = true ∧ returned.isArrayOrStdClass = true ∧ e.exceptions = []) ∨
    (ce.isSerializable = false ∧ ce.isType = false) := by
  cases hser : ce.isSerializable with
  | true =>
    have hcalled : (callBsonSerialize returned e).2.exceptions = [] := by
      unfold internalObject at h
      simp only [hser,if_true] at h
      split at h
      · exact h
      split at h
      · exact absurd h (throwExpectedArray_ne_nil _ _ _)
      · rw [exceptions_withOdm] at h
        exact (htable _).eq_nil h
    obtain ⟨heq,hundef⟩ := callBsonSerialize_noException hcall hcalled
    refine .inl ⟨rfl,?_,(throws_callBsonSerialize returned e).eq_nil hcalled⟩
    unfold internalObject at h
    simp only [hser,if_true,heq,hundef,Bool.false_eq_true,if_false] at h
    cases harray : returned.isArrayOrStdClass with
    | false =>
      simp only [harray,Bool.not_false,if_true] at h
      exact absurd h (throwExpectedArray_ne_nil _ _ _)
    | true => rfl
  | false =>
    refine .inr ⟨rfl,?_⟩
    unfold internalObject at h
    simp only [hser,Bool.false_eq_true,if_false] at h
    cases htype : ce.isType with
    | true =>
      simp only [htype,if_true] at h
      exact absurd h (throw_ne_nil _ _ _)
    | false => rfl

theorem appendObject_noException {key : CString} {ce : ClassEntry} {returned : Zval}
    {nested own : Append} (hcall : returned ≠ .undef [])
    (hnested : nested.Accumulates)
    (h : (appendObject key ce returned nested own e).2.exceptions = []) :
    (ce.isSerializable = true ∧ returned.isArrayOrStdClass = true ∧
      (nested e).2.exceptions = []) ∨
    (ce.isSerializable = false ∧ ce.isType = false ∧ (own e).2.exceptions = []) := by
  cases htype : ce.isType with
  | false =>
    have hser : ce.isSerializable = false := by
      cases hser : ce.isSerializable with
      | false => rfl
      | true =>
        rw [ClassEntry.isType_of_isSerializable hser] at htype
        cases htype
    refine .inr ⟨hser,rfl,?_⟩
    simpa [appendObject,htype,appendDocument] using h
  | true =>
    unfold appendObject at h
    simp only [htype,if_true] at h
    split at h
    · rename_i hser
      refine .inl ⟨hser,?_⟩
      have hcalled : (callBsonSerialize returned e).2.exceptions = [] := by
        split at h
        · exact h
        split at h
        · exact absurd h (throwExpectedArray_ne_nil _ _ _)
        split at h
        · simp only [appendDocument,exceptions_withOdm] at h
          exact (hnested _).eq_nil h
        · exact (hnested _).eq_nil h
      obtain ⟨heq,hundef⟩ := callBsonSerialize_noException hcall hcalled
      simp only [heq,hundef,Bool.false_eq_true,if_false] at h
      cases harray : returned.isArrayOrStdClass with
      | false =>
        simp only [harray,Bool.not_false,if_true] at h
        exact absurd h (throwExpectedArray_ne_nil _ _ _)
      | true =>
        refine ⟨rfl,?_⟩
        simp only [harray,Bool.not_true,Bool.false_eq_true,if_false] at h
        split at h
        · simpa only [appendDocument,exceptions_withOdm] using h
        · exact h
    · exact absurd h (throw_ne_nil _ _ _)

theorem hashOfBson_noException {obj : BsonObject} (h : (hashOfBson L U obj e).exceptions = []) :
    ScopeDecodes L U obj := by
  have he : e.exceptions = [] := (throws_hashOfBson obj e).eq_nil h
  match obj with
  | .javascript _ (some scope) =>
    simp only [hashOfBson,he] at h
    exact h
  | .javascript _ none => trivial
  | .objectId _ | .utcDateTime _ | .binary _ _ | .decimal128 _ _ | .int64 _ | .regex _ _
  | .timestamp _ _ | .maxKey | .minKey | .dbPointer _ _ | .symbol _ | .undefined => trivial

theorem encoding_leaf_of_noException {z : Zval} (hl : z.IsLeaf) {key : CString}
    (h : (appendValue L U key z e).2.exceptions = []) :
    ∃ v, encoding L U e.protectedTables z = some v := by
  cases z with
  | array | object | reference => exact hl.elim
  | undef | resource => exact absurd h (throw_ne_nil _ _ _)
  | null | bool | double | long | cursorId => exact ⟨_,rfl⟩
  | string s =>
    rw [appendValue,appendString] at h
    split at h
    · rename_i hs
      exact ⟨.utf8 s,by rw [encoding,if_pos hs]⟩
    · exact absurd h (throw_ne_nil _ _ _)
  | bson obj =>
    rw [appendValue] at h
    have hhash := (guarded_accumulates none .document
      (appendElement_accumulates key (bsonObjectValue L obj)) (hashOfBson L U obj e)).eq_nil h
    exact ⟨bsonObjectValue L obj,by rw [encoding,if_pos (hashOfBson_noException hhash)]⟩

/-- Without an exception there is a complete encoding of the value, of the document it makes and
of the table it is to another object. -/
def Zval.Encodes (L : Libbson) (U : Userland) (z : Zval) : Prop :=
  (∀ key e, (appendValue L U key z e).2.exceptions = [] →
    ∃ v, encoding L U e.protectedTables z = some v) ∧
  (∀ e, z.isArrayOrStdClass = true → (internal L U z .none e).2.exceptions = [] →
    ∃ d, bodyEncoding L U e.protectedTables z = some d) ∧
  (∀ skip e, z.isArrayOrStdClass = true →
    (appendTable L U false skip z false e).encoder.exceptions = [] →
    ∃ d, tableEncoding L U e.protectedTables skip z = some d)

def Zval.AllEncode (L : Libbson) (U : Userland) (els : List (Key × Zval)) : Prop :=
  ∀ fromProperties skip e,
    (appendAll L U fromProperties skip els false e).encoder.exceptions = [] →
      ∃ d, fieldsEncoding L U e.protectedTables fromProperties skip els = some d

theorem leaf_encodes_of_noException {z : Zval} (hl : z.IsLeaf) : z.Encodes L U := by
  have hnot : z.isArrayOrStdClass ≠ true := by
    cases z <;> first | exact hl.elim | exact Bool.false_ne_true
  exact ⟨fun key e h => encoding_leaf_of_noException hl h,fun e hz => absurd hz hnot,
    fun skip e hz => absurd hz hnot⟩

/-- The table an array encodes is not one of those above it. -/
theorem array_free_of_noException {ht : Option ℕ} {els : List (Key × Zval)} {key : CString}
    (ih : Zval.AllEncode L U els)
    (h : (appendValue L U key (.array ht els) e).2.exceptions = []) :
    (∀ t ∈ ht, t ∉ e.protectedTables) ∧
      ∃ d, fieldsEncoding L U (ht.toList ++ e.protectedTables) false false els = some d := by
  rw [appendValue] at h
  split at h
  · obtain ⟨hfree,e',htables,he'⟩ := guarded_noException h
    rw [← htables]
    exact ⟨hfree,ih false false e' ((exceptions_closeFields L _ .none e').symm.trans he')⟩
  · obtain ⟨hfree,e',htables,he'⟩ := guarded_noException h
    rw [← htables]
    exact ⟨hfree,ih false false e' ((exceptions_closeFields L _ .none e').symm.trans he')⟩

theorem array_encodes_of_noException (ht : Option ℕ) {els : List (Key × Zval)}
    (ih : Zval.AllEncode L U els) : (Zval.array ht els).Encodes L U := by
  refine ⟨fun key e h => ?_,fun e _ h => ?_,fun skip e _ h => ih false skip e h⟩
  · obtain ⟨hfree,d,hd⟩ := array_free_of_noException ih h
    exact ⟨_,by rw [encoding,if_pos hfree,hd,Option.map_some]⟩
  · rw [internal,exceptions_closeFields] at h
    exact ih false false e h

/-- An object under a name: what `bsonSerialize()` returned is encoded, or its properties are. -/
theorem object_encoding_of_noException {ce : ClassEntry} {ht : Option ℕ} {returned : Zval}
    {properties : List (Key × Zval)} (hcall : returned ≠ .undef [])
    (ihp : Zval.AllEncode L U properties) (ihr : returned.Encodes L U) {key : CString}
    (h : (appendValue L U key (.object ce ht properties returned) e).2.exceptions = []) :
    ∃ v, encoding L U e.protectedTables (.object ce ht properties returned) = some v := by
  rw [appendValue] at h
  obtain ⟨hfree,e',htables,he'⟩ := guarded_noException h
  rw [encoding,if_pos hfree,← htables]
  rcases appendObject_noException hcall (((append_accumulates L U).1 returned).2.1 .none) he'
    with ⟨hser,harray,hnested⟩ | ⟨hser,htype,hown⟩
  · obtain ⟨d,hd⟩ := ihr.2.1 e' harray hnested
    exact ⟨_,by rw [if_pos hser,if_pos harray,hd,Option.map_some]⟩
  · rw [internalObject] at hown
    simp only [hser,htype,Bool.false_eq_true,if_false,exceptions_closeFields] at hown
    obtain ⟨d,hd⟩ := ihp true false e' hown
    exact ⟨.document d,by simp [hser,htype,hd]⟩

theorem object_bodyEncoding_of_noException {ce : ClassEntry} {ht : Option ℕ} {returned : Zval}
    {properties : List (Key × Zval)} (hcall : returned ≠ .undef [])
    (ihp : Zval.AllEncode L U properties) (ihr : returned.Encodes L U)
    (h : (internal L U (.object ce ht properties returned) .none e).2.exceptions = []) :
    ∃ d, bodyEncoding L U e.protectedTables (.object ce ht properties returned) = some d := by
  have htable : ∀ e, ThrowsOnto e.exceptions (closeFields L
      (appendTable L U false ce.isPersistable returned) .none e).2.exceptions :=
    closeFields_accumulates .none (((append_accumulates L U).1 returned).2.2 false _)
  rw [internal] at h
  rw [bodyEncoding]
  rcases internalObject_noException hcall htable h with ⟨hser,harray,he⟩ | ⟨hser,htype⟩
  · rw [internalObject_serializable hser harray he,exceptions_closeFields] at h
    obtain ⟨d,hd⟩ := ihr.2.2 ce.isPersistable e harray h
    exact ⟨_,by rw [if_pos hser,if_pos harray,hd,Option.map_some]⟩
  · rw [internalObject_plain hser htype,exceptions_closeFields] at h
    obtain ⟨d,hd⟩ := ihp true false e h
    exact ⟨d,by simp [hser,htype,hd]⟩

theorem cons_encodes_of_noException {key : Key} {z : Zval} {rest : List (Key × Zval)}
    (ihz : z.Encodes L U) (ihr : Zval.AllEncode L U rest) :
    Zval.AllEncode L U ((key,z)::rest) := by
  intro fromProperties skip e h
  rw [appendAll] at h
  rw [fieldsEncoding]
  revert h
  cases inspectKey fromProperties skip key with
  | skip => exact fun h => ihr fromProperties skip e h
  | abort => exact fun h => absurd h (throw_ne_nil _ _ _)
  | append name =>
    intro h
    have hrest := (append_accumulates L U).2 rest fromProperties skip
    have hafter : (appendValue L U name z (e.writeItem name)).2.exceptions = [] :=
      (hrest _ _).eq_nil h
    obtain ⟨v,hv⟩ := ihz.1 name (e.writeItem name) hafter
    have he : (e.writeItem name).exceptions = [] :=
      (((append_accumulates L U).1 z).1 name _).eq_nil hafter
    obtain ⟨-,fp,hsame⟩ := ((append_encoding L U).1 z).1 name (e.writeItem name) v he hv
    obtain ⟨d,hd⟩ := ihr fromProperties skip _ h
    rw [hsame] at hd
    have hv' : encoding L U e.protectedTables z = some v := hv
    have hd' : fieldsEncoding L U e.protectedTables fromProperties skip rest = some d := hd
    exact ⟨(name,v)::d,by simp [hv',hd']⟩

/-- Without an exception there is a complete encoding, by induction along the encoder. -/
theorem encoding_of_noException (L : Libbson) (U : Userland) :
    (∀ z, z.CallsThrow → Zval.Encodes L U z) ∧
    (∀ els, Zval.AllCallsThrow els → Zval.AllEncode L U els) := by
  refine Zval.induction ?leaf ?array ?object ?reference ?nil ?cons
  case leaf => exact fun z hl _ => leaf_encodes_of_noException hl
  case array => exact fun ht els ih hcalls => array_encodes_of_noException ht (ih hcalls)
  case object =>
    intro ce ht properties returned ihp ihr hcalls
    obtain ⟨hcall,hreturned,hproperties⟩ := hcalls
    have ihprops := ihp hproperties
    exact ⟨fun key e h => object_encoding_of_noException hcall ihprops (ihr hreturned) h,
      fun e _ h => object_bodyEncoding_of_noException hcall ihprops (ihr hreturned) h,
      fun skip e _ h => ihprops false skip e h⟩
  case reference =>
    intro z ih hcalls
    refine ⟨fun key e h => ?_,fun e hz => ?_,fun skip e hz => ?_⟩
    · rw [appendValue] at h
      rw [encoding]
      exact (ih hcalls).1 key e h
    · cases hz
    · cases hz
  case nil => exact fun _ fromProperties skip e _ => ⟨[],rfl⟩
  case cons =>
    intro key z rest ihz ihr hcalls
    exact cons_encodes_of_noException (ihz hcalls.1) (ihr hcalls.2)

end

end Phongo
