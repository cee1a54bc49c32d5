import Mathlib.Tactic.Common
import Phongo.Bson.Stop
import Phongo.Error.Throw

/-! The error labels of a reply, and the exceptions that get them. -/
namespace Phongo
open OrderedTable

def iterated (d : Doc) : Doc := d.takeWhile fun e => !e.2.endsIteration

def BsonValue.string? : BsonValue → Option Bytes
  | .utf8 s => some s
  | _ => none

def stringsIn : Option BsonValue → List Bytes
  | some (.array d) => (iterated d).filterMap fun e => e.2.string?
  | _ => []

def fieldOf (key : String) (d : Doc) : Option BsonValue := find? (iterated d) (CString.lit key)

/-- The strings in the "errorLabels" of a document, if the value is one. -/
def labelsIn : Option BsonValue → List Bytes
  | some (.document d) => stringsIn (fieldOf "errorLabels" d)
  | _ => []

def errorsIn : Option BsonValue → List BsonValue
  | some (.array d) => (iterated d).map Prod.snd
  | _ => []

/-- The labels of a reply, of its write concern error and of each of its write concern errors. -/
def labelsOf (reply : Doc) : List Bytes :=
  labelsIn (some (.document reply)) ++ labelsIn (fieldOf "writeConcernError" reply) ++
    (errorsIn (fieldOf "writeConcernErrors" reply)).flatMap fun e => labelsIn (some e)

/-- The value of `errorLabels` for some labels. -/
def labelsProperty (labels : List Bytes) : Zval :=
  if labels = [] then .null else .array none (indexedFrom 0 (labels.map .string))

def ExceptionObject.Carries (x : ExceptionObject) (labels : List Bytes) : Prop :=
  find? x.properties (exceptionProperty "errorLabels") = some (labelsProperty labels)

theorem iterated_cons (e : CString × BsonValue) (d : Doc) :
    iterated (e::d) = if e.2.endsIteration then [] else e::iterated d := by
  rw [iterated,List.takeWhile_cons]
  cases e.2.endsIteration <;> rfl

theorem iterFind_eq (key : CString) (d : Doc) : iterFind key d = find? (iterated d) key := by
  induction d with
  | nil => rfl
  | cons e d ih =>
    rw [iterFind,iterated_cons]
    split
    · rfl
    · rw [find?,ih]

def labelArray (labels : List Bytes) : Zval := .array none (indexedFrom 0 (labels.map .string))

theorem addNextIndex_labelArray (labels : List Bytes) (s : Bytes) :
    (labelArray labels).addNextIndex (.string s) = labelArray (labels ++ [s]) := by
  simp [labelArray,Zval.addNextIndex,indexedFrom_append,indexedFrom,length_indexedFrom]

/-- `labels` gathered after `before`. -/
def Gathered (before labels : List Bytes) (n : ℕ) (r : Zval × ℕ) : Prop :=
  r = (labelArray (before ++ labels),n + labels.length)

theorem appendStrings_gathered (before : List Bytes) (n : ℕ) (d : Doc) :
    Gathered before (stringsIn (some (.array d))) n
      (appendStrings (labelArray before) n d) := by
  induction d generalizing before n with
  | nil => simp [Gathered,appendStrings,stringsIn,iterated]
  | cons e d ih =>
    obtain ⟨key,v⟩ := e
    rw [Gathered,stringsIn,iterated_cons]
    by_cases hend : v.endsIteration = true
    · simp [appendStrings,hend]
    · cases v with
      | utf8 s =>
        have hs := ih (before ++ [s]) (n+1)
        rw [appendStrings,if_neg hend,addNextIndex_labelArray,hs]
        simp [BsonValue.endsIteration,stringsIn,BsonValue.string?]
        omega
      | _ => first
        | exact absurd rfl hend
        | simpa [appendStrings,BsonValue.endsIteration,stringsIn,BsonValue.string?,Gathered]
            using ih before n

theorem appendFound_gathered (before : List Bytes) (n : ℕ) (d : Doc) :
    Gathered before (labelsIn (some (.document d))) n
      (appendFound (labelArray before) n d) := by
  have hlabels : labelsIn (some (.document d)) =
      stringsIn (find? (iterated d) (CString.lit "errorLabels")) := rfl
  rw [hlabels,appendFound,iterFind_eq]
  cases find? (iterated d) (CString.lit "errorLabels") with
  | none => simp [Gathered,stringsIn]
  | some v =>
    cases v with
    | array d =>
      have h := appendStrings_gathered before 0 d
      rw [Gathered] at h ⊢
      simp [appendErrorLabels,h]
    | _ => simp [Gathered,appendErrorLabels,stringsIn]

theorem appendOfWriteConcernErrors_gathered (before : List Bytes) (n : ℕ) (d : Doc) :
    Gathered before ((errorsIn (some (.array d))).flatMap fun e => labelsIn (some e)) n
      (appendOfWriteConcernErrors (labelArray before) n d) := by
  induction d generalizing before n with
  | nil => simp [Gathered,appendOfWriteConcernErrors,errorsIn,iterated]
  | cons e d ih =>
    obtain ⟨key,v⟩ := e
    rw [Gathered,errorsIn,iterated_cons]
    by_cases hend : v.endsIteration = true
    · simp [appendOfWriteConcernErrors,hend]
    · cases v with
      | document wce =>
        have hfound := appendFound_gathered before n wce
        rw [Gathered] at hfound
        have hrest := ih (before ++ labelsIn (some (.document wce)))
          (n + (labelsIn (some (.document wce))).length)
        rw [appendOfWriteConcernErrors,if_neg hend]
        simp only [hfound]
        rw [hrest]
        simp [BsonValue.endsIteration,errorsIn]
        omega
      | _ => first
        | exact absurd rfl hend
        | simpa [appendOfWriteConcernErrors,BsonValue.endsIteration,errorsIn,labelsIn,Gathered]
            using ih before n

theorem appendOfWriteConcernError_gathered (before : List Bytes) (n : ℕ)
    (v : Option BsonValue) :
    Gathered before (labelsIn v) n (appendOfWriteConcernError (labelArray before) n v) := by
  cases v with
  | none => simp [Gathered,appendOfWriteConcernError,labelsIn]
  | some v =>
    cases v with
    | document child => exact appendFound_gathered before n child
    | _ => simp [Gathered,appendOfWriteConcernError,labelsIn]

theorem appendOfAllWriteConcernErrors_gathered (before : List Bytes) (n : ℕ)
    (v : Option BsonValue) :
    Gathered before ((errorsIn v).flatMap fun e => labelsIn (some e)) n
      (appendOfAllWriteConcernErrors (labelArray before) n v) := by
  cases v with
  | none => simp [Gathered,appendOfAllWriteConcernErrors,errorsIn]
  | some v =>
    cases v with
    | array child => exact appendOfWriteConcernErrors_gathered before n child
    | _ => simp [Gathered,appendOfAllWriteConcernErrors,errorsIn]

/-- The three traversals gather the labels of a reply. -/
theorem gatherErrorLabels_eq (reply : Doc) :
    gatherErrorLabels reply = (labelArray (labelsOf reply),(labelsOf reply).length) := by
  have hreply : appendFound (.array none []) 0 reply = _ := appendFound_gathered [] 0 reply
  unfold gatherErrorLabels
  simp only [hreply,iterFind_eq]
  rw [appendOfWriteConcernError_gathered,appendOfAllWriteConcernErrors_gathered]
  simp [labelsOf,fieldOf,Nat.add_assoc]

theorem exceptionProperty_errorLabels_ne :
    exceptionProperty "resultDocument" ≠ exceptionProperty "errorLabels" ∧
      exceptionProperty "writeResult" ≠ exceptionProperty "errorLabels" := by
  decide

theorem addErrorLabels_carries (reply : Doc) (x : ExceptionObject) (eg : Chain) :
    ∃ y : ExceptionObject, addErrorLabels (some reply) (x::eg) = y::eg ∧ y.ce = x.ce ∧
      (x.Carries [] → y.Carries (labelsOf reply)) := by
  unfold addErrorLabels
  simp only [gatherErrorLabels_eq]
  by_cases hlabels : labelsOf reply = []
  · rw [hlabels,if_neg (by simp)]
    exact ⟨x,rfl,rfl,fun hx => hx⟩
  · rw [if_pos (List.length_pos_iff.mpr hlabels)]
    refine ⟨_,rfl,rfl,fun _ => ?_⟩
    rw [ExceptionObject.Carries,labelsProperty,if_neg hlabels]
    exact find?_update_self _ _ _

theorem ExceptionObject.Carries.eq_nil {x : ExceptionObject} {labels : List Bytes}
    (h : x.Carries []) (h' : x.Carries labels) : labels = [] := by
  by_contra hne
  have heq : labelsProperty labels = .null := (Option.some.inj (h.symm.trans h')).symm
  rw [labelsProperty,if_neg hne] at heq
  cases heq

theorem ExceptionObject.Carries.addProp {x : ExceptionObject} {labels : List Bytes}
    (h : x.Carries labels) {prop : String}
    (hprop : exceptionProperty prop ≠ exceptionProperty "errorLabels")
    (z : Zval) (eg : Chain) :
    ∃ y : ExceptionObject, addExceptionProp prop z (x::eg) = y::eg ∧ y.ce = x.ce ∧
      y.Carries labels := by
  refine ⟨_,rfl,rfl,?_⟩
  rw [ExceptionObject.Carries] at h ⊢
  rw [find?_update_of_ne _ _ _ _ hprop.symm,h]

theorem carries_new {ce : ExceptionClass} (h : ce.isRuntimeException = true) (format : String)
    (args : List Arg) (code : UInt32) :
    (ExceptionObject.mk ce format args code ce.properties).Carries [] := by
  simp [ExceptionObject.Carries,ExceptionClass.properties,h,find?,labelsProperty]

theorem map_snd_indexedFrom (n : ℕ) (zs : List Zval) :
    (indexedFrom n zs).map Prod.snd = zs := by
  induction zs generalizing n with
  | nil => rfl
  | cons z zs ih => rw [indexedFrom,List.map_cons,ih]

theorem ofBytes_eq_ofBytes (s t : Bytes) :
    CString.ofBytes s = CString.ofBytes t ↔ cstr s = cstr t :=
  ⟨fun h => congrArg CString.bytes h,fun h => CString.ext h⟩

/-- `hasErrorLabel` looks at a label up to its first NUL. -/
theorem ExceptionObject.Carries.hasErrorLabel_iff {x : ExceptionObject} {labels : List Bytes}
    (h : x.Carries labels) (l : Bytes) :
    x.hasErrorLabel l = true ↔ ∃ label ∈ labels, cstr label = cstr l := by
  rw [ExceptionObject.hasErrorLabel,h,Option.getD_some,labelsProperty]
  split
  · rename_i hnil
    simp [hnil,hasStringArrayElement]
  · have hany : hasStringArrayElement (.array none (indexedFrom 0 (labels.map .string)))
        (CString.ofBytes l) =
        ((indexedFrom 0 (labels.map .string)).map Prod.snd).any
          (Zval.strcmpEqual (CString.ofBytes l)) := by
      rw [List.any_map]
      rfl
    rw [hany,map_snd_indexedFrom]
    simp [Zval.strcmpEqual,ofBytes_eq_ofBytes]

end Phongo
