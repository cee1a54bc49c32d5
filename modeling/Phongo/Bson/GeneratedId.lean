import Mathlib.Tactic.Common
import Phongo.Bson.Complete

/-! ADD_ID and RETURN_ID: which `_id` a root document gets. -/
namespace Phongo
open OrderedTable

/-- The table whose elements become the fields of a root document. -/
def Zval.rootTable : Zval → List (Key × Zval)
  | .array _ els => els
  | .object ce _ properties returned =>
    if ce.isSerializable then returned.hashOf.getD [] else properties
  | .cursorId id => [(.str (ascii "id"),.long id)]
  | _ => []

def idKey : Key := .str idName.bytes

/-- The value a root document has of its own for `_id`. -/
def Zval.ownId (data : Zval) : Option Zval := find? data.rootTable idKey

section
variable {L : Libbson} {U : Userland} {e : Encoder}

theorem bytes_of_inspectKey {fromProperties skip : Bool} {key : Key} {name : CString}
    (h : inspectKey fromProperties skip key = .append name) : name.bytes = key.toStr := by
  cases key with
  | int n =>
    cases h
    rfl
  | str s =>
    simp only [inspectKey] at h
    split_ifs at h
    cases h
    rfl

theorem inspectKey_idKey (fromProperties skip : Bool) :
    inspectKey fromProperties skip idKey = .append idName := by
  cases fromProperties <;> cases skip <;> rfl

theorem name_eq_id_iff {fromProperties skip : Bool} {key : Key} {name : CString}
    (h : inspectKey fromProperties skip key = .append name) : name = idName ↔ key = idKey := by
  have hname := bytes_of_inspectKey h
  constructor
  · rintro rfl
    cases key with
    | int n =>
      have hsym : symtable idName.bytes = .int n := by rw [hname]; exact symtable_longToStr n
      have hid : symtable idName.bytes = .str idName.bytes := by decide
      rw [hid] at hsym
      cases hsym
    | str s => exact congrArg Key.str hname.symm
  · rintro rfl
    rw [inspectKey_idKey] at h
    cases h
    rfl

/-- ADD_ID does nothing to the elements; what is left of it says whether there was an `_id`. -/
theorem appendAll_addId (fromProperties skip : Bool) (els : List (Key × Zval)) (addId : Bool)
    (e : Encoder) :
    (appendAll L U fromProperties skip els addId e).fields =
      (appendAll L U fromProperties skip els false e).fields ∧
    (appendAll L U fromProperties skip els addId e).aborted =
      (appendAll L U fromProperties skip els false e).aborted ∧
    (appendAll L U fromProperties skip els addId e).encoder =
      (appendAll L U fromProperties skip els false e).encoder ∧
    ((appendAll L U fromProperties skip els false e).aborted = false →
      (appendAll L U fromProperties skip els addId e).addId =
        (addId && decide (idKey ∉ keys els))) := by
  induction els generalizing addId e with
  | nil => exact ⟨rfl,rfl,rfl,fun _ => by simp [appendAll]⟩
  | cons entry els ih =>
    obtain ⟨key,z⟩ := entry
    rw [appendAll]
    cases hkey : inspectKey fromProperties skip key with
    | skip =>
      have hne : idKey ≠ key := by
        rintro rfl
        rw [inspectKey_idKey] at hkey
        cases hkey
      simpa [hne] using ih addId e
    | abort => exact ⟨rfl,rfl,rfl,fun hab => (by cases hab)⟩
    | append name =>
      obtain ⟨hfields,haborted,hencoder,hid⟩ := ih (addId && decide (key ≠ idKey))
        (appendValue L U name z (e.writeItem name)).2
      simp only [Bool.false_and]
      refine ⟨congrArg _ hfields,haborted,hencoder,fun hab => (hid hab).trans ?_⟩
      by_cases hkid : key = idKey
      · simp [hkid]
      · simp [hkid,Ne.symm hkid]

/-- The elements under the name `_id` are what the table has under that key. -/
theorem filter_fieldsEncoding {tables : List ℕ} {fromProperties skip : Bool}
    {els : List (Key × Zval)} {d : Doc} (hkeys : (keys els).Nodup)
    (h : fieldsEncoding L U tables fromProperties skip els = some d) :
    (∀ z, find? els idKey = some z → ∃ v, encoding L U tables z = some v ∧
      d.filter (fun f => f.1 = idName) = [(idName,v)]) ∧
    (find? els idKey = none → d.filter (fun f => f.1 = idName) = []) := by
  induction els generalizing d with
  | nil =>
    cases h
    exact ⟨fun z hz => (by cases hz),fun _ => rfl⟩
  | cons entry els ih =>
    obtain ⟨key,z⟩ := entry
    obtain ⟨hnot,hkeys⟩ := List.nodup_cons.mp hkeys
    rw [fieldsEncoding] at h
    cases hkey : inspectKey fromProperties skip key with
    | skip =>
      have hne : key ≠ idKey := by
        rintro rfl
        rw [inspectKey_idKey] at hkey
        cases hkey
      simp only [hkey] at h
      simpa [find?,hne] using ih hkeys h
    | abort =>
      simp only [hkey] at h
      cases h
    | append name =>
      simp only [hkey] at h
      cases hv : encoding L U tables z with
      | none => simp [hv] at h
      | some v =>
        cases hd : fieldsEncoding L U tables fromProperties skip els with
        | none => simp [hv,hd] at h
        | some rest =>
          simp only [hv,hd,Option.some.injEq] at h
          subst h
          obtain ⟨ihsome,ihnone⟩ := ih hkeys hd
          have hiff := name_eq_id_iff hkey
          by_cases hid : key = idKey
          · have hrest : find? els idKey = none := by
              rw [find?_eq_none,← hid]
              exact hnot
            have hname := hiff.mpr hid
            have hempty := ihnone hrest
            refine ⟨fun z' hz' => ⟨v,?_⟩,fun hnone => ?_⟩
            · have hz : z = z' := by simpa [find?,hid] using hz'
              rw [← hz]
              exact ⟨hv,by simp [hname,hempty]⟩
            · simp [find?,hid] at hnone
          · have hname : name ≠ idName := fun hn => hid (hiff.mp hn)
            have hfind : find? ((key,z)::els) idKey = find? els idKey := by simp [find?,hid]
            have hfilter : ((name,v)::rest).filter (fun f => f.1 = idName) =
                rest.filter fun f => f.1 = idName := by simp [hname]
            rw [hfind,hfilter]
            exact ⟨ihsome,ihnone⟩

theorem appendTable_hashOf {returned : Zval} (h : returned.isArrayOrStdClass = true)
    (fromProperties skip : Bool) : appendTable L U fromProperties skip returned =
      appendAll L U fromProperties skip (returned.hashOf.getD []) := by
  cases returned with
  | array | object => rfl
  | _ => cases h

theorem rootTable_callsThrow {data : Zval} (hdata : data.isArrayOrObject = true)
    (hcalls : data.CallsThrow) : Zval.AllCallsThrow data.rootTable := by
  have htable : ∀ z : Zval, z.CallsThrow → Zval.AllCallsThrow (z.hashOf.getD []) := by
    intro z hz
    cases z with
    | array => exact hz
    | object => exact hz.2.2
    | _ => trivial
  cases data with
  | array => exact hcalls
  | cursorId => exact ⟨trivial,trivial⟩
  | object ce ht properties returned =>
    rw [Zval.rootTable]
    split
    · exact htable returned hcalls.2.1
    · exact hcalls.2.2
  | _ => trivial

/-- A root document is the fields of its table, below the class name of a Persistable. -/
theorem internal_root {data : Zval} (hdata : data.isArrayOrObject = true) (hcalls : data.CallsThrow)
    {flags : Flags} (h : (internal L U data flags e).2.exceptions = []) :
    ∃ fromProperties skip odm, odm.filter (fun f => f.1 = idName) = [] ∧
      (appendAll L U fromProperties skip data.rootTable false e).encoder.exceptions = [] ∧
      ∀ flags', internal L U data flags' e =
        (odm ++ (closeFields L (appendAll L U fromProperties skip data.rootTable) flags' e).1,
          (closeFields L (appendAll L U fromProperties skip data.rootTable) flags' e).2) := by
  have plain : ∀ fromProperties els, (internal L U data = fun flags =>
      closeFields L (appendAll L U fromProperties false els) flags) → data.rootTable = els →
      ∃ fromProperties skip odm, odm.filter (fun f => f.1 = idName) = [] ∧
        (appendAll L U fromProperties skip data.rootTable false e).encoder.exceptions = [] ∧
        ∀ flags', internal L U data flags' e =
          (odm ++ (closeFields L (appendAll L U fromProperties skip data.rootTable) flags' e).1,
            (closeFields L (appendAll L U fromProperties skip data.rootTable) flags' e).2) := by
    rintro fromProperties els heq rfl
    rw [heq,exceptions_closeFields,
      (appendAll_addId fromProperties false data.rootTable flags.addId e).2.2.1] at h
    exact ⟨fromProperties,false,[],rfl,h,fun flags' => by rw [heq]; rfl⟩
  cases data with
  | array ht els => exact plain false els (funext fun _ => rfl) rfl
  | bson obj => exact absurd h (throw_ne_nil _ _ _)
  | cursorId id =>
    refine plain false _ (funext fun flags => ?_) rfl
    have hkey : inspectKey false false (.str (ascii "id")) = .append (CString.lit "id") := rfl
    have hne : Key.str (ascii "id") ≠ .str idName.bytes := by decide
    rw [internal]
    congr 1
    funext addId e
    simp [Zval.rootTable,appendAll,hkey,hne,appendValue]
  | object ce ht properties returned =>
    obtain ⟨hcall,hreturned,-⟩ := hcalls
    rw [internal] at h
    have htable : ∀ e, ThrowsOnto e.exceptions (closeFields L
        (appendTable L U false ce.isPersistable returned) flags e).2.exceptions :=
      closeFields_accumulates flags (((append_accumulates L U).1 returned).2.2 false _)
    rcases internalObject_noException hcall htable h with ⟨hser,harray,he⟩ | ⟨hser,htype⟩
    · have hroot : (Zval.object ce ht properties returned).rootTable =
          returned.hashOf.getD [] := by
        rw [Zval.rootTable,if_pos hser]
      rw [internalObject_serializable hser harray he,exceptions_closeFields,
        appendTable_hashOf harray,← hroot,(appendAll_addId _ _ _ flags.addId e).2.2.1] at h
      refine ⟨false,ce.isPersistable,if ce.isPersistable then [odmField ce] else [],?_,h,
        fun flags' => ?_⟩
      · have hne : odmFieldName ≠ idName := by decide
        split <;> simp [odmField,hne]
      · rw [internal,internalObject_serializable hser harray he,appendTable_hashOf harray,hroot]
    · refine plain true properties (funext fun flags => ?_) ?_
      · rw [internal,internalObject_plain hser htype]
      · simp [Zval.rootTable,hser]
  | _ => cases hdata

/-- A loop that ends without an exception under RETURN_ID, with and without ADD_ID. -/
theorem closeFields_id {fromProperties skip : Bool} {els : List (Key × Zval)}
    (hkeys : (keys els).Nodup) (hcalls : Zval.AllCallsThrow els) (hids : e.generatedOids = 0)
    (h : (appendAll L U fromProperties skip els false e).encoder.exceptions = []) :
    ∃ v, (closeFields L (appendAll L U fromProperties skip els) ⟨true,true⟩ e).1.filter
        (fun f => f.1 = idName) = [(idName,v)] ∧
      (closeFields L (appendAll L U fromProperties skip els) ⟨true,true⟩ e).2.bsonOut =
        some [(idName,v)] ∧
      (∀ z, find? els idKey = some z → encoding L U e.protectedTables z = some v ∧
        (closeFields L (appendAll L U fromProperties skip els) ⟨true,true⟩ e).1 =
          (closeFields L (appendAll L U fromProperties skip els) ⟨false,true⟩ e).1) ∧
      (find? els idKey = none → v = .oid (L.oidInit 0) ∧
        (closeFields L (appendAll L U fromProperties skip els) ⟨true,true⟩ e).1 =
          (closeFields L (appendAll L U fromProperties skip els) ⟨false,true⟩ e).1 ++
            [(idName,v)]) := by
  have he : e.exceptions = [] := ((append_accumulates L U).2 els _ _ false e).eq_nil h
  obtain ⟨d,hd⟩ := (encoding_of_noException L U).2 els hcalls fromProperties skip e h
  obtain ⟨hfields,hid,hab,fp,hsame⟩ := (append_encoding L U).2 els fromProperties skip e d he hd
  obtain ⟨hfields',hab',hencoder',hid'⟩ := appendAll_addId (L:=L) (U:=U) fromProperties skip els true e
  obtain ⟨hsome,hnone⟩ := filter_fieldsEncoding hkeys hd
  have hplain : closeFields L (appendAll L U fromProperties skip els) ⟨false,true⟩ e =
      (d,{ (appendAll L U fromProperties skip els false e).encoder with
        bsonOut := some (d.find? fun f => f.1 = idName).toList }) := by
    simp [closeFields,finishFields,hab,hid,hfields]
  rw [hfields] at hfields'
  rw [hab] at hab'
  have hid' := hid' hab
  cases hfind : find? els idKey with
  | some z =>
    have hmem : idKey ∈ keys els := by
      by_contra hnot
      rw [(find?_eq_none els idKey).mpr hnot] at hfind
      cases hfind
    have hadd : closeFields L (appendAll L U fromProperties skip els) ⟨true,true⟩ e =
        closeFields L (appendAll L U fromProperties skip els) ⟨false,true⟩ e := by
      rw [hplain]
      simp [closeFields,finishFields,hab',hid',hmem,hfields',hencoder']
    obtain ⟨v,hv,hfilter⟩ := hsome z hfind
    refine ⟨v,by rw [hadd,hplain]; exact hfilter,?_,fun z' hz' => ?_,fun hnone' => (by cases hnone')⟩
    · have hhead : d.find? (fun f => f.1 = idName) = some (idName,v) := by
        rw [← List.head?_filter,hfilter,List.head?_cons]
      rw [hadd,hplain]
      simp only [hhead,Option.toList_some]
    · cases hz'
      exact ⟨hv,by rw [hadd]⟩
  | none =>
    have hnot := (find?_eq_none els idKey).mp hfind
    have hempty := hnone hfind
    have hfresh : (appendAll L U fromProperties skip els true e).encoder.generatedOids = 0 := by
      rw [hencoder',hsame]
      exact hids
    obtain ⟨v,hv⟩ : ∃ v : BsonValue, v = .oid (L.oidInit 0) := ⟨_,rfl⟩
    have hfilter : (d ++ [(idName,v)]).filter (fun f => f.1 = idName) = [(idName,v)] := by
      rw [List.filter_append,hempty]
      simp
    have hhead : (d ++ [(idName,v)]).find? (fun f => f.1 = idName) = some (idName,v) := by
      rw [← List.head?_filter,hfilter,List.head?_cons]
    have hadd : closeFields L (appendAll L U fromProperties skip els) ⟨true,true⟩ e =
        (d ++ [(idName,v)],{ (appendAll L U fromProperties skip els true e).encoder with
          generatedOids := 1
          bsonOut := some [(idName,v)] }) := by
      simp only [closeFields,finishFields,hab',hid',hnot,hfields',hfresh,not_false_eq_true,
        decide_true,Bool.and_true,if_true,Bool.false_eq_true,if_false,← hv,hhead,
        Option.toList_some]
    refine ⟨v,by rw [hadd]; exact hfilter,by rw [hadd],fun z hz => (by cases hz),
      fun _ => ⟨hv,by rw [hadd,hplain]⟩⟩

/-- A root document encoded under ADD_ID and RETURN_ID without an exception has one `_id`, its own
or a new one at its end; `*bson_out` holds that field, and the rest is as without ADD_ID. -/
theorem zvalToBson_id (L : Libbson) (U : Userland) {data : Zval}
    (hdata : data.isArrayOrObject = true) (hkeys : (keys data.rootTable).Nodup)
    (hcalls : data.CallsThrow) {eg : Pending}
    (h : (zvalToBson L U data ⟨true,true⟩ eg).2.2 = []) :
    ∃ v, (zvalToBson L U data ⟨true,true⟩ eg).1.filter (fun f => f.1 = idName) = [(idName,v)] ∧
      (zvalToBson L U data ⟨true,true⟩ eg).2.1 = some [(idName,v)] ∧
      (∀ z, data.ownId = some z → encoding L U [] z = some v ∧
        (zvalToBson L U data ⟨true,true⟩ eg).1 = (zvalToBson L U data ⟨false,true⟩ eg).1) ∧
      (data.ownId = none → v = .oid (L.oidInit 0) ∧
        (zvalToBson L U data ⟨true,true⟩ eg).1 =
          (zvalToBson L U data ⟨false,true⟩ eg).1 ++ [(idName,v)]) := by
  obtain ⟨fromProperties,skip,odm,hodm,hloop,hroot⟩ := internal_root hdata hcalls h
  obtain ⟨v,hfilter,hout,hown,hnew⟩ := closeFields_id hkeys (rootTable_callsThrow hdata hcalls) rfl
    hloop
  simp only [zvalToBson,hroot]
  refine ⟨v,?_,hout,fun z hz => ?_,fun hz => ?_⟩
  · rw [List.filter_append,hodm,hfilter,List.nil_append]
  · obtain ⟨hv,heq⟩ := hown z hz
    exact ⟨hv,by rw [heq]⟩
  · obtain ⟨hv,heq⟩ := hnew hz
    exact ⟨hv,by rw [heq,List.append_assoc]⟩

end

/-- A root array without an `_id`, which an array inside it has. -/
def idInside : Zval :=
  .array none [(.str (ascii "a"),.array none [(idKey,.long 1)])]

theorem zvalToBson_idInside :
    (zvalToBson .ascii (.keeping .person) idInside ⟨true,true⟩ []).1 =
      (zvalToBson .ascii (.keeping .person) idInside ⟨false,true⟩ []).1 ++
        [(idName,.oid (Libbson.ascii.oidInit 0))] := by
  have hnone : (zvalToBson .ascii (.keeping .person) idInside ⟨true,true⟩ []).2.2 = [] := rfl
  have hkeys : (keys idInside.rootTable).Nodup := List.nodup_singleton _
  have hcalls : idInside.CallsThrow := ⟨⟨trivial,trivial⟩,trivial⟩
  obtain ⟨v,-,-,-,hnew⟩ := zvalToBson_id .ascii (.keeping .person) rfl hkeys hcalls hnone
  obtain ⟨hv,heq⟩ := hnew rfl
  rw [heq,hv]

end Phongo
