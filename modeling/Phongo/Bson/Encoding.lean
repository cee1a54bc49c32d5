import Mathlib.Tactic.Common
import Phongo.Bson.Data

/-! The complete encoding of a value: no state, no exceptions and no prefix of a document, but a
BSON value or none. Where there is one the encoder yields it and throws nothing. -/
namespace Phongo

instance (L : Libbson) (U : Userland) : DecidablePred (ScopeDecodes L U)
  | .javascript _ (some scope) =>
    inferInstanceAs (Decidable
      ((bsonToZvalEx L U (.read scope true) BsonState.init []).exceptions = []))
  | .javascript _ none => .isTrue trivial
  | .objectId _ | .utcDateTime _ | .binary _ _ | .decimal128 _ _ | .int64 _ | .regex _ _
  | .timestamp _ _ | .maxKey | .minKey | .dbPointer _ _ | .symbol _ | .undefined => .isTrue trivial

mutual

/-- The complete encoding of a value below the given tables. -/
def encoding (L : Libbson) (U : Userland) (tables : List ℕ) : Zval → Option BsonValue
  | .null => some .null
  | .bool b => some (.bool b)
  | .long n => some (intValue n)
  | .double bits => some (.double bits)
  | .string s => if L.utf8Validate s true then some (.utf8 s) else none
  | .array ht els =>
    if ∀ t ∈ ht, t ∉ tables then
      (fieldsEncoding L U (ht.toList ++ tables) false false els).map
        (if keysAreIndices 0 els then .array else .document)
    else none
  | .bson obj => if ScopeDecodes L U obj then some (bsonObjectValue L obj) else none
  | .cursorId id => some (.int64 id)
  | .object ce ht properties returned =>
    if ∀ t ∈ ht, t ∉ tables then
      if ce.isSerializable then
        if returned.isArrayOrStdClass then
          (bodyEncoding L U (ht.toList ++ tables) returned).map fun d =>
            if ce.isPersistable then .document (odmField ce::d)
            else if returned.isBsonArray then .array d
            else .document d
        else none
      else if ce.isType then none
      else (fieldsEncoding L U (ht.toList ++ tables) true false properties).map .document
    else none
  | .reference z => encoding L U tables z
  | .undef _ | .resource => none

/-- The elements of a value that is the body of a document or an array. -/
def bodyEncoding (L : Libbson) (U : Userland) (tables : List ℕ) : Zval → Option Doc
  | .array _ els => fieldsEncoding L U tables false false els
  | .object ce _ properties returned =>
    if ce.isSerializable then
      if returned.isArrayOrStdClass then
        (tableEncoding L U tables ce.isPersistable returned).map fun d =>
          if ce.isPersistable then odmField ce::d else d
      else none
    else if ce.isType then none
    else fieldsEncoding L U tables true false properties
  | _ => none

/-- The elements of what a body's `bsonSerialize()` returned. -/
def tableEncoding (L : Libbson) (U : Userland) (tables : List ℕ) (skipOdmField : Bool) :
    Zval → Option Doc
  | .array _ els => fieldsEncoding L U tables false skipOdmField els
  | .object _ _ properties _ => fieldsEncoding L U tables false skipOdmField properties
  | _ => none

def fieldsEncoding (L : Libbson) (U : Userland) (tables : List ℕ)
    (fromProperties skipOdmField : Bool) : List (Key × Zval) → Option Doc
  | [] => some []
  | (key,z)::rest =>
    match inspectKey fromProperties skipOdmField key with
    | .skip => fieldsEncoding L U tables fromProperties skipOdmField rest
    | .abort => none
    | .append name =>
      match encoding L U tables z,fieldsEncoding L U tables fromProperties skipOdmField rest with
      | some v,some d => some ((name,v)::d)
      | _,_ => none

end

section
variable {L : Libbson} {U : Userland}

/-- Nothing but the field path is changed below a table that is not open. -/
theorem guarded_yields_table {body : Append} {d : Doc} {e : Encoder} {ht : Option ℕ}
    (type : ItemType) (hfree : ∀ t ∈ ht, t ∉ e.protectedTables)
    (h : ∀ e', e'.protectedTables = ht.toList ++ e.protectedTables →
      e'.exceptions = e.exceptions → body.Yields e' d) :
    (guarded ht type body).Yields e d := by
  cases ht with
  | none => exact guarded_yields type (h _ rfl rfl)
  | some t =>
    have hnot : t ∉ e.protectedTables := hfree t rfl
    obtain ⟨hd,fp,hsame⟩ :=
      h (({ e with protectedTables := t::e.protectedTables } : Encoder).enter type) rfl rfl
    unfold guarded Append.Yields
    simp only [Encoder.protectionBegin,hnot,if_false]
    refine ⟨hd,FieldPath.leave fp,?_⟩
    rw [hsame]
    simp [Encoder.leave,Encoder.protectionEnd,Encoder.enter]

theorem callBsonSerialize_complete {returned : Zval} {e : Encoder} (he : e.exceptions = [])
    (h : returned.isArrayOrStdClass = true) :
    callBsonSerialize returned e = (returned,e) ∧ returned.isUndef = false := by
  cases returned with
  | array | object => exact ⟨by simp [callBsonSerialize,he],rfl⟩
  | _ => cases h

theorem withOdm_yields {r : Doc × Encoder} {e : Encoder} {d : Doc} (ce : ClassEntry)
    (hd : r.1 = d) (hs : e.Same r.2) :
    (if ce.isPersistable then (odmField ce::r.1,r.2) else r).1 =
        (if ce.isPersistable then odmField ce::d else d) ∧
      e.Same (if ce.isPersistable then (odmField ce::r.1,r.2) else r).2 := by
  split
  · exact ⟨by rw [hd],hs⟩
  · exact ⟨hd,hs⟩

/-- The body of an object, whose own or returned table yields the elements. -/
theorem internalObject_yields {ce : ClassEntry} {returned : Zval} {table properties : Loop}
    {e : Encoder} (he : e.exceptions = []) {d : Doc} :
    (ce.isSerializable = true → returned.isArrayOrStdClass = true → table.Yields e d →
      (internalObject L ce returned table properties .none).Yields e
        (if ce.isPersistable then odmField ce::d else d)) ∧
    (ce.isSerializable = false → ce.isType = false → properties.Yields e d →
      (internalObject L ce returned table properties .none).Yields e d) := by
  constructor
  · intro hser hreturned htable
    obtain ⟨hcall,hundef⟩ := callBsonSerialize_complete he hreturned
    obtain ⟨hd,hs⟩ := closeFields_yields (L:=L) htable
    unfold internalObject Append.Yields
    simp only [hser,hcall,hundef,hreturned,if_true,Bool.not_true,Bool.false_eq_true,if_false]
    exact withOdm_yields ce hd hs
  · intro hser htype hproperties
    unfold internalObject Append.Yields
    simp only [hser,htype,Bool.false_eq_true,if_false]
    exact closeFields_yields (L:=L) hproperties

theorem bodyEncoding_leaf {tables : List ℕ} {z : Zval} (hl : z.IsLeaf) :
    bodyEncoding L U tables z = none := by
  cases z <;> first | exact hl.elim | rfl

theorem tableEncoding_leaf {tables : List ℕ} {skip : Bool} {z : Zval} (hl : z.IsLeaf) :
    tableEncoding L U tables skip z = none := by
  cases z <;> first | exact hl.elim | rfl

theorem append_encoding_leaf {z : Zval} (hl : z.IsLeaf) (key : CString) {e : Encoder}
    {v : BsonValue} (he : e.exceptions = []) (h : encoding L U e.protectedTables z = some v) :
    (appendValue L U key z).Yields e [(key,v)] := by
  cases z with
  | array | object | reference => exact hl.elim
  | undef | resource => cases h
  | null | bool | double =>
    obtain rfl := Option.some.inj h
    exact appendElement_yields key _ e
  | long n =>
    obtain rfl := Option.some.inj h
    exact appendInt_yields key n e
  | string s =>
    rw [encoding] at h
    split at h
    · rename_i hs
      obtain rfl := Option.some.inj h
      rw [appendValue]
      exact ⟨by simp [appendString,hs],by simpa [appendString,hs] using Encoder.Same.refl e⟩
    · cases h
  | bson obj =>
    rw [encoding] at h
    split at h
    · rename_i hs
      obtain rfl := Option.some.inj h
      have hh := Encoder.hashOfBson_eq hs he
      have hg := guarded_yields .document
        (appendElement_yields key (bsonObjectValue L obj) (e.enter .document))
      simpa only [appendValue,Append.Yields,hh] using hg
    · cases h
  | cursorId id =>
    obtain rfl := Option.some.inj h
    exact guarded_yields .document (appendElement_yields key (.int64 id) (e.enter .document))

/-- `php_phongo_bson_append` gives the complete encoding of a value, where there is one. -/
def ValueEncodes (L : Libbson) (U : Userland) (z : Zval) : Prop :=
  ∀ key e v, e.exceptions = [] → encoding L U e.protectedTables z = some v →
    (appendValue L U key z).Yields e [(key,v)]

/-- `php_phongo_zval_to_bson_internal` gives that of its elements. -/
def BodyEncodes (L : Libbson) (U : Userland) (z : Zval) : Prop :=
  ∀ e d, e.exceptions = [] → bodyEncoding L U e.protectedTables z = some d →
    (internal L U z .none).Yields e d

def TableEncodes (L : Libbson) (U : Userland) (z : Zval) : Prop :=
  ∀ skip e d, e.exceptions = [] → tableEncoding L U e.protectedTables skip z = some d →
    (appendTable L U false skip z).Yields e d

def FieldsEncode (L : Libbson) (U : Userland) (els : List (Key × Zval)) : Prop :=
  ∀ fromProperties skip e d, e.exceptions = [] →
    fieldsEncoding L U e.protectedTables fromProperties skip els = some d →
    (appendAll L U fromProperties skip els).Yields e d

theorem array_encodes {els : List (Key × Zval)} (ht : Option ℕ) (hels : FieldsEncode L U els) :
    ValueEncodes L U (.array ht els) := by
  intro key e v he h
  rw [encoding] at h
  split at h
  · rename_i hfree
    obtain ⟨d,hd,hv⟩ := Option.map_eq_some_iff.mp h
    have hbody : ∀ e' : Encoder, e'.protectedTables = ht.toList ++ e.protectedTables →
        e'.exceptions = e.exceptions →
        (closeFields L (appendAll L U false false els) .none).Yields e' d :=
      fun e' ht' he' => closeFields_yields
        (hels false false e' d (he'.trans he) (by rw [ht']; exact hd))
    rw [appendValue]
    split at hv
    · rename_i hk
      subst hv
      simp only [hk,if_true]
      exact guarded_yields_table .array hfree fun e' ht' he' =>
        appendArray_yields key (hbody e' ht' he')
    · rename_i hk
      subst hv
      simp only [hk]
      exact guarded_yields_table .document hfree fun e' ht' he' =>
        appendDocument_yields key (hbody e' ht' he')
  · cases h

theorem appendObject_yields_returned {ce : ClassEntry} {returned : Zval} {own nested : Append}
    (key : CString) {e : Encoder} {d : Doc} (he : e.exceptions = [])
    (hser : ce.isSerializable = true) (hreturned : returned.isArrayOrStdClass = true)
    (hnested : nested.Yields e d) :
    (appendObject key ce returned nested own).Yields e
      [(key,if ce.isPersistable then .document (odmField ce::d)
        else if returned.isBsonArray then .array d else .document d)] := by
  obtain ⟨hcall,hundef⟩ := callBsonSerialize_complete he hreturned
  have htype := ClassEntry.isType_of_isSerializable hser
  unfold appendObject Append.Yields
  simp only [htype,hser,hcall,hundef,hreturned,if_true,Bool.not_true,Bool.false_eq_true,if_false]
  cases ce.isPersistable with
  | true =>
    simp only [Bool.true_or,if_true]
    exact ⟨by simp [appendDocument,hnested.1],hnested.2⟩
  | false =>
    cases returned.isBsonArray with
    | true =>
      simp only [Bool.not_true,Bool.or_false,Bool.false_eq_true,if_false,if_true]
      exact appendArray_yields key hnested
    | false =>
      simp only [Bool.not_false,Bool.or_true,Bool.false_eq_true,if_false,if_true]
      exact appendDocument_yields key hnested

section Objects
variable {returned : Zval} {properties : List (Key × Zval)} (ce : ClassEntry) (ht : Option ℕ)

theorem object_encodes (hreturned : BodyEncodes L U returned)
    (hproperties : FieldsEncode L U properties) :
    ValueEncodes L U (.object ce ht properties returned) := by
  intro key e v he h
  rw [encoding] at h
  split at h
  · rename_i hfree
    rw [appendValue]
    refine guarded_yields_table .document hfree fun e' ht' he' => ?_
    rw [← ht'] at h
    have hnone := he'.trans he
    split at h
    · rename_i hser
      split at h
      · rename_i harray
        obtain ⟨d,hd,rfl⟩ := Option.map_eq_some_iff.mp h
        exact appendObject_yields_returned key hnone hser harray (hreturned e' d hnone hd)
      · cases h
    · rename_i hser
      split at h
      · cases h
      · rename_i htype
        obtain ⟨d,hd,rfl⟩ := Option.map_eq_some_iff.mp h
        have hser' : ce.isSerializable = false := by simpa using hser
        have htype' : ce.isType = false := by simpa using htype
        simp only [appendObject,Append.Yields,htype',Bool.false_eq_true,if_false]
        exact appendDocument_yields key ((internalObject_yields hnone).2 hser' htype'
          (hproperties true false e' d hnone hd))
  · cases h

theorem object_bodyEncodes (hreturned : TableEncodes L U returned)
    (hproperties : FieldsEncode L U properties) :
    BodyEncodes L U (.object ce ht properties returned) := by
  intro e d he h
  rw [bodyEncoding] at h
  rw [internal]
  split at h
  · rename_i hser
    split at h
    · rename_i harray
      obtain ⟨d',hd',rfl⟩ := Option.map_eq_some_iff.mp h
      exact (internalObject_yields he).1 hser harray (hreturned ce.isPersistable e d' he hd')
    · cases h
  · rename_i hser
    split at h
    · cases h
    · rename_i htype
      exact (internalObject_yields he).2 (by simpa using hser) (by simpa using htype)
        (hproperties true false e d he h)

end Objects

theorem cons_encodes {z : Zval} {rest : List (Key × Zval)} (key : Key) (hz : ValueEncodes L U z)
    (hrest : FieldsEncode L U rest) : FieldsEncode L U ((key,z)::rest) := by
  intro fromProperties skip e d he h
  rw [fieldsEncoding] at h
  unfold Loop.Yields
  rw [appendAll]
  cases hk : inspectKey fromProperties skip key with
  | skip =>
    simp only [hk] at h
    exact hrest fromProperties skip e d he h
  | abort =>
    simp only [hk] at h
    cases h
  | append name =>
    simp only [hk] at h
    simp only [Bool.false_and]
    cases hv : encoding L U e.protectedTables z with
    | none => rw [hv] at h; cases h
    | some v =>
      cases hd : fieldsEncoding L U e.protectedTables fromProperties skip rest with
      | none => rw [hv,hd] at h; cases h
      | some d' =>
        rw [hv,hd] at h
        obtain rfl := Option.some.inj h
        obtain ⟨hfst,hsame⟩ := hz name (e.writeItem name) v he hv
        have hsame' := (Encoder.Same.writeItem e name).trans hsame
        have htables : (appendValue L U name z (e.writeItem name)).2.protectedTables =
            e.protectedTables := by
          obtain ⟨fp,hfp⟩ := hsame'
          rw [hfp]
        obtain ⟨hfields,hid,hab,hsame''⟩ := hrest fromProperties skip
          (appendValue L U name z (e.writeItem name)).2 d' (hsame'.exceptions.trans he)
          (by rw [htables]; exact hd)
        exact ⟨by rw [hfst,hfields]; rfl,hid,hab,hsame'.trans hsame''⟩

/-- The encoder computes the complete encoding where there is one. -/
theorem append_encoding (L : Libbson) (U : Userland) :
    (∀ z, ValueEncodes L U z ∧ BodyEncodes L U z ∧ TableEncodes L U z) ∧
      ∀ els, FieldsEncode L U els := by
  refine Zval.induction ?leaf ?array ?object ?reference ?nil ?cons
  case leaf =>
    intro z hl
    refine ⟨fun key e v he h => ?_,fun e d _ h => ?_,fun skip e d _ h => ?_⟩
    · exact append_encoding_leaf hl key he h
    · rw [bodyEncoding_leaf hl] at h
      cases h
    · rw [tableEncoding_leaf hl] at h
      cases h
  case array =>
    intro ht els hels
    refine ⟨array_encodes ht hels,fun e d he h => ?_,fun skip e d he h => ?_⟩
    · rw [bodyEncoding] at h
      exact closeFields_yields (hels false false e d he h)
    · rw [tableEncoding] at h
      exact hels false skip e d he h
  case object =>
    intro ce ht properties returned hproperties hreturned
    obtain ⟨-,hbody,htable⟩ := hreturned
    refine ⟨object_encodes ce ht hbody hproperties,object_bodyEncodes ce ht htable hproperties,
      fun skip e d he h => ?_⟩
    rw [tableEncoding] at h
    exact hproperties false skip e d he h
  case reference =>
    intro z hz
    refine ⟨fun key e v he h => ?_,fun e d _ h => ?_,fun skip e d _ h => ?_⟩
    · rw [encoding] at h
      rw [appendValue]
      exact hz.1 key e v he h
    · have hnone : bodyEncoding L U e.protectedTables (.reference z) = none := rfl
      rw [hnone] at h
      cases h
    · have hnone : tableEncoding L U e.protectedTables skip (.reference z) = none := rfl
      rw [hnone] at h
      cases h
  case nil =>
    intro fromProperties skip e d _ h
    obtain rfl := Option.some.inj h
    exact ⟨rfl,rfl,rfl,Encoder.Same.refl e⟩
  case cons => exact fun key z rest hz hrest => cons_encodes key hz.1 hrest

end

end Phongo
