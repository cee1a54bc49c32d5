import Mathlib.Tactic.Common
import Phongo.Bson.Pending
import Phongo.Lib.Optional
import Phongo.Query.Construct

/-! The options a Query takes from its options array and from the modifiers in it. -/
namespace Phongo
open OrderedTable Attempt

/-- What becomes of the value of an option. -/
inductive OptionKind
  | bool | int64 | string | document | stringOrDocument
  deriving DecidableEq

/-- An option of libmongoc, the options it comes from, the first that is given, and the modifier
it comes from where none of them is. -/
structure MergedOption where
  opt : String
  kind : OptionKind
  options : List String
  modifier : Option String
  deriving DecidableEq

def mergedOptions : List MergedOption :=
  [⟨"allowDiskUse",.bool,["allowDiskUse"],none⟩,
    ⟨"allowPartialResults",.bool,["allowPartialResults","partial"],none⟩,
    ⟨"awaitData",.bool,["awaitData"],none⟩,
    ⟨"batchSize",.int64,["batchSize"],none⟩,
    ⟨"collation",.document,["collation"],none⟩,
    ⟨"comment",.string,["comment"],some "$comment"⟩,
    ⟨"exhaust",.bool,["exhaust"],none⟩,
    ⟨"max",.document,["max"],some "$max"⟩,
    ⟨"maxScan",.int64,["maxScan"],some "$maxScan"⟩,
    ⟨"maxTimeMS",.int64,["maxTimeMS"],some "$maxTimeMS"⟩,
    ⟨"min",.document,["min"],some "$min"⟩,
    ⟨"noCursorTimeout",.bool,["noCursorTimeout"],none⟩,
    ⟨"oplogReplay",.bool,["oplogReplay"],none⟩,
    ⟨"projection",.document,["projection"],none⟩,
    ⟨"returnKey",.bool,["returnKey"],some "$returnKey"⟩,
    ⟨"showRecordId",.bool,["showRecordId"],some "$showDiskLoc"⟩,
    ⟨"skip",.int64,["skip"],none⟩,
    ⟨"sort",.document,["sort"],some "$orderby"⟩,
    ⟨"snapshot",.bool,["snapshot"],some "$snapshot"⟩,
    ⟨"tailable",.bool,["tailable"],none⟩,
    ⟨"explain",.bool,[],some "$explain"⟩,
    ⟨"hint",.stringOrDocument,["hint"],some "$hint"⟩]

def modifiersIn (options : Options) : Options :=
  match options.fetch "modifiers" with
  | some (.array _ els) => els
  | _ => []

def MergedOption.given (o : MergedOption) (options : Options) : Option Zval :=
  (o.options.findSome? options.fetch).or (o.modifier.bind (modifiersIn options).fetch)

/-- Two options arrays give an option under the same keys the same values. -/
def MergedOption.SameIn (o : MergedOption) (options options' : Options) : Prop :=
  (∀ key ∈ o.options, options.fetch key = options'.fetch key) ∧
    ∀ key ∈ o.modifier, (modifiersIn options).fetch key = (modifiersIn options').fetch key

section
variable {Rc : Type} (E : QueryOutside Rc)

def QueryOutside.number : Zval → Int64 :=
  ReadPreferenceObject.zvalToLong fun z => (E.convertToLong z).1

def QueryOutside.document (z : Zval) : Doc := (zvalToBson E.libbson E.userland z .none []).1

/-- The value of an option that is given a value it accepts. -/
def QueryOutside.optionValue : OptionKind → Zval → Option BsonValue
  | .bool,z => some (.bool z.isTrue)
  | .int64,z => some (.int64 (E.number z))
  | .string,.string s => some (.utf8 s)
  | .string,_ => none
  | .document,z => if z.isArrayOrObject then some (.document (E.document z)) else none
  | .stringOrDocument,.string s => some (.utf8 s)
  | .stringOrDocument,z =>
    if z.isArrayOrObject then some (.document (E.document z)) else none

/-- An option is absent where it is not given, and has the value it is given otherwise. -/
def QueryOutside.Becomes (kind : OptionKind) (given : Option Zval) (v : Option BsonValue) : Prop :=
  match given with
  | none => v = none
  | some z => v = E.optionValue kind z ∧ v ≠ none

/-- The number given as "limit". -/
def QueryOutside.limit (options : Options) : Int64 :=
  match options.fetch "limit" with
  | none => 0
  | some z => E.number z

/-- "singleBatch" is given, and false. -/
def Options.SingleBatchFalse (options : Options) : Prop :=
  (options.fetch "singleBatch").any (!·.isTrue) = true

/-- The limit converts, and does not conflict with "singleBatch". -/
def QueryOutside.LimitAccepted (options : Options) : Prop :=
  (E.fetchLong options "limit" []).2 = [] ∧ ¬ (E.limit options < 0 ∧ options.SingleBatchFalse)

/-- "limit" and "singleBatch" depend on each other. -/
def QueryOutside.limitEntries (options : Options) : Table CString (Option BsonValue) :=
  if E.limit options < 0 then
    [(CString.lit "limit",some (.int64 (-E.limit options))),
      (CString.lit "singleBatch",some (.bool true))]
  else
    [(CString.lit "limit",(options.fetch "limit").map fun z => .int64 (E.number z)),
      (CString.lit "singleBatch",(options.fetch "singleBatch").map fun z => .bool z.isTrue)]

/-- A call of the constructor that throws nothing. -/
def QueryOutside.Accepts (filter options : Zval) (q : Query Rc) : Prop :=
  E.construct filter options [] = (some q,[])

variable {E}

theorem QueryOutside.Becomes.eq_bind {kind : OptionKind} {given : Option Zval}
    {v : Option BsonValue} (h : E.Becomes kind given v) :
    v = given.bind (E.optionValue kind) := by
  cases given with
  | none => exact h
  | some z => exact h.1

variable {eg eg' : Pending} {opts opts' : Doc} {options : Options}
  {modifiers : Option Options} {value : Zval}

theorem QueryOutside.keeps_toBson (z : Zval) : (E.toBson z).Keeps := by
  refine Keeps.bind ?_ fun b => keeps_check.bind fun _ => keeps_pure b
  intro eg hne h
  obtain ⟨thrown,heq,-⟩ := throws_zvalToBson E.libbson E.userland z .none eg
  have hnil : (zvalToBson E.libbson E.userland z .none eg).2.2 = [] := h
  rw [hnil] at heq
  exact hne (List.append_eq_nil_iff.mp heq.symm).2

theorem QueryOutside.toBson_eq {z : Zval} {b : Doc} (h : E.toBson z eg = (some b,[])) :
    eg = [] ∧ b = E.document z := by
  have heg : eg = [] := (QueryOutside.keeps_toBson z).eq_nil (by rw [h])
  subst heg
  obtain ⟨b',eg',hb,hrest⟩ := bind_eq_some.mp h
  obtain ⟨_,eg'',-,hpure⟩ := bind_eq_some.mp hrest
  cases hpure
  cases hb
  exact ⟨rfl,rfl⟩

theorem QueryOutside.keeps_zvalToLong (z : Zval) : (E.zvalToLong z).Keeps := by
  induction z using Zval.rec (motive_2:=fun _ => True) (motive_3:=fun _ => True) with
  | reference z ih => simpa [QueryOutside.zvalToLong] using ih
  | null => exact keeps_pure _
  | bool b => exact keeps_pure _
  | long n => exact keeps_pure _
  | nil => trivial
  | cons => trivial
  | mk => trivial
  | _ => exact keeps_userCode _

theorem QueryOutside.zvalToLong_fst (z : Zval) (eg : Pending) :
    (E.zvalToLong z eg).1 = some (E.number z) := by
  induction z using Zval.rec (motive_2:=fun _ => True) (motive_3:=fun _ => True) with
  | reference z ih => simpa [QueryOutside.zvalToLong,QueryOutside.number,
      ReadPreferenceObject.zvalToLong] using ih
  | nil => trivial
  | cons => trivial
  | mk => trivial
  | _ => rfl

theorem QueryOutside.keeps_notice (deprecated : Bool) (key : String) :
    (E.notice deprecated key).Keeps := by
  cases deprecated with
  | true => exact keeps_userCode _
  | false => exact keeps_pure ()

def QueryOptMacro.kind : QueryOptMacro → OptionKind
  | .bool _ => .bool
  | .int64 _ => .int64
  | .string => .string
  | .document => .document

theorem QueryOutside.keeps_optsAppendDocument (opts : Doc) (optsKey zarrKey : String)
    (value : Zval) : (E.optsAppendDocument opts optsKey zarrKey value).Keeps := by
  unfold QueryOutside.optsAppendDocument
  split
  · refine (QueryOutside.keeps_toBson value).bind fun b => ?_
    split
    · exact keeps_pure _
    · exact keeps_throw _
  · exact keeps_throw _

theorem QueryOutside.keeps_append (o : QueryOpt) (value : Zval) (opts : Doc) :
    (E.append o value opts).Keeps := by
  unfold QueryOutside.append
  split
  · exact (QueryOutside.keeps_notice _ _).bind fun _ => keeps_pure _
  · exact (QueryOutside.keeps_notice _ _).bind fun _ =>
      (QueryOutside.keeps_zvalToLong value).bind fun _ => keeps_pure _
  · unfold queryOptsAppendString
    split
    · exact keeps_pure _
    · exact keeps_throw _
  · exact QueryOutside.keeps_optsAppendDocument _ _ _ _

/-- A macro appends the option, with the value it is given. -/
theorem QueryOutside.append_eq {o : QueryOpt} (h : E.append o value opts eg = (some opts',[])) :
    eg = [] ∧ ∃ v, E.optionValue o.expand.kind value = some v ∧
      opts' = opts ++ [(CString.lit o.opt,v)] := by
  have heg : eg = [] := (QueryOutside.keeps_append o value opts).eq_nil (by rw [h])
  refine ⟨heg,?_⟩
  rcases o with ⟨expand,opt,zarr,key⟩
  cases expand with
  | bool deprecated =>
    obtain ⟨_,_,-,hpure⟩ := bind_eq_some.mp h
    cases hpure
    exact ⟨_,rfl,rfl⟩
  | int64 deprecated =>
    obtain ⟨_,_,-,hrest⟩ := bind_eq_some.mp h
    obtain ⟨n,_,hn,hpure⟩ := bind_eq_some.mp hrest
    have hnumber := QueryOutside.zvalToLong_fst (E:=E) value _ ▸ congrArg Prod.fst hn
    cases hpure
    cases hnumber
    exact ⟨_,rfl,rfl⟩
  | string =>
    cases value with
    | string s =>
      cases h
      exact ⟨_,rfl,rfl⟩
    | _ => cases h
  | document =>
    simp only [QueryOutside.append,QueryOutside.optsAppendDocument] at h
    split at h
    · rename_i hkind
      obtain ⟨b,eg'',hb,hrest⟩ := bind_eq_some.mp h
      split at hrest
      · cases hrest
        rw [(QueryOutside.toBson_eq hb).2]
        exact ⟨_,if_pos hkind,rfl⟩
      · cases hrest
    · cases h

/-- The keys a statement looks for, in this order. -/
def QueryOpt.source (u : QueryOpt) : QueryArray × String := (u.zarr,u.key)

/-- A statement appends the option `o`. -/
def Appends (o : MergedOption) (s : List QueryOpt) : Prop :=
  (∀ u ∈ s, u.opt = o.opt ∧ u.expand.kind = o.kind) ∧
    s.map QueryOpt.source = o.options.map (QueryArray.options,·) ++
      o.modifier.toList.map (QueryArray.modifiers,·)

theorem forall₂_appends : List.Forall₂ Appends (mergedOptions.dropLast) queryStatements := by
  simp [mergedOptions,queryStatements,Appends,QueryOptMacro.kind,QueryOpt.source]

/-- The value of the first key of a statement that exists. -/
def firstGiven (options : Options) (modifiers : Option Options) (s : List QueryOpt) :
    Option Zval :=
  s.findSome? fun u => (u.zarr.of options modifiers).bind (·.fetch u.key)

theorem firstGiven_single (expand : QueryOptMacro) (opt key : String) :
    firstGiven options modifiers [⟨expand,opt,.options,key⟩] = options.fetch key := by
  simp [firstGiven,QueryArray.of]

/-- A statement appends its option if one of its keys exists. -/
theorem QueryOutside.statement_eq (opt : String) (kind : OptionKind) {s : List QueryOpt}
    (hs : ∀ u ∈ s, u.opt = opt ∧ u.expand.kind = kind)
    (h : E.statement options modifiers s opts eg = (some opts',[])) :
    eg = [] ∧ ∃ v, E.Becomes kind (firstGiven options modifiers s) v ∧
      opts' = opts ++ present [(CString.lit opt,v)] := by
  induction s with
  | nil =>
    cases h
    exact ⟨rfl,none,rfl,(List.append_nil _).symm⟩
  | cons u s ih =>
    obtain ⟨hu,hrest⟩ := List.forall_mem_cons.mp hs
    rw [QueryOutside.statement] at h
    rw [firstGiven,List.findSome?_cons]
    cases hvalue : (u.zarr.of options modifiers).bind (·.fetch u.key) with
    | none =>
      rw [hvalue] at h
      exact ih hrest h
    | some value =>
      rw [hvalue] at h
      obtain ⟨heg,v,hv,hopts⟩ := QueryOutside.append_eq h
      rw [hu.1] at hopts
      rw [hu.2] at hv
      exact ⟨heg,some v,⟨hv.symm,Option.some_ne_none v⟩,hopts⟩

/-- The modifiers that were found are those in the options array. -/
def HasModifiers (options : Options) (modifiers : Option Options) : Prop :=
  ∀ key, modifiers.bind (·.fetch key) = (modifiersIn options).fetch key

theorem fetchModifiers_eq (h : fetchModifiers options eg = (some modifiers,eg')) :
    eg' = eg ∧ HasModifiers options modifiers := by
  unfold HasModifiers
  cases hz : options.fetch "modifiers" with
  | none =>
    simp only [fetchModifiers,modifiersIn,hz] at h ⊢
    cases h
    exact ⟨rfl,fun key => rfl⟩
  | some z =>
    cases z with
    | array ht els =>
      simp only [fetchModifiers,modifiersIn,hz] at h ⊢
      cases h
      exact ⟨rfl,fun key => rfl⟩
    | _ =>
      simp only [fetchModifiers,hz] at h
      cases h

theorem Appends.firstGiven_eq {o : MergedOption} {s : List QueryOpt} (h : Appends o s)
    (hm : HasModifiers options modifiers) :
    firstGiven options modifiers s = o.given options := by
  have hsource : firstGiven options modifiers s =
      (s.map QueryOpt.source).findSome? fun a =>
        (a.1.of options modifiers).bind (·.fetch a.2) := by
    rw [List.findSome?_map]
    rfl
  rw [hsource,h.2,List.findSome?_append,List.findSome?_map,List.findSome?_map]
  cases hmodifier : o.modifier with
  | none => simp [MergedOption.given,hmodifier,QueryArray.of,Function.comp_def]
  | some key =>
    simp [MergedOption.given,hmodifier,QueryArray.of,Function.comp_def,hm key]

def QueryOutside.Entries (E : QueryOutside Rc) (options : Options) (os : List MergedOption)
    (t : Table CString (Option BsonValue)) : Prop :=
  List.Forall₂
    (fun o e => e.1 = CString.lit o.opt ∧ E.Becomes o.kind (o.given options) e.2) os t

theorem QueryOutside.statements_eq {os : List MergedOption} {ss : List (List QueryOpt)}
    (hs : List.Forall₂ Appends os ss) (hm : HasModifiers options modifiers)
    (h : E.statements options modifiers ss opts eg = (some opts',[])) :
    eg = [] ∧ ∃ t, E.Entries options os t ∧ opts' = opts ++ present t := by
  induction hs generalizing opts eg with
  | nil =>
    cases h
    exact ⟨rfl,[],List.Forall₂.nil,(List.append_nil _).symm⟩
  | @cons o s os ss hhead htail ih =>
    obtain ⟨opts'',eg'',hfirst,hrest⟩ := bind_eq_some.mp h
    obtain ⟨rfl,t,ht,rfl⟩ := ih hrest
    obtain ⟨heg,v,hv,rfl⟩ := QueryOutside.statement_eq o.opt o.kind hhead.1 hfirst
    rw [hhead.firstGiven_eq hm] at hv
    refine ⟨heg,(CString.lit o.opt,v)::t,List.Forall₂.cons ⟨rfl,hv⟩ ht,?_⟩
    rw [List.append_assoc,← present_append,List.singleton_append]

def hintOption : MergedOption := ⟨"hint",.stringOrDocument,["hint"],some "$hint"⟩

theorem QueryOutside.appendHint_eq {zarr : QueryArray} {key wrongType : String}
    (h : E.appendHint zarr key wrongType value opts eg = (some opts',[])) :
    eg = [] ∧ ∃ v, E.optionValue .stringOrDocument value = some v ∧
      opts' = opts ++ [(CString.lit "hint",v)] := by
  have hdocument : E.optionValue .stringOrDocument value = E.optionValue .document value →
      E.append ⟨.document,"hint",zarr,key⟩ value opts eg = (some opts',[]) →
      eg = [] ∧ ∃ v, E.optionValue .stringOrDocument value = some v ∧
        opts' = opts ++ [(CString.lit "hint",v)] := by
    intro hkind happend
    obtain ⟨heg,v,hv,hopts⟩ := QueryOutside.append_eq happend
    exact ⟨heg,v,hkind.trans hv,hopts⟩
  cases value with
  | string s =>
    have happend : E.append ⟨.string,"hint",zarr,key⟩ (.string s) opts eg = (some opts',[]) := h
    obtain ⟨heg,v,hv,hopts⟩ := QueryOutside.append_eq happend
    exact ⟨heg,v,hv,hopts⟩
  | array ht els => exact hdocument rfl h
  | bson obj => exact hdocument rfl h
  | cursorId id => exact hdocument rfl h
  | object ce ht properties returned => exact hdocument rfl h
  | _ => cases h

theorem QueryOutside.initHint_eq (hm : HasModifiers options modifiers)
    (h : E.initHint options modifiers opts eg = (some opts',[])) :
    eg = [] ∧ ∃ v, E.Becomes .stringOrDocument (hintOption.given options) v ∧
      opts' = opts ++ present [(CString.lit "hint",v)] := by
  have hgiven : hintOption.given options =
      (options.fetch "hint").or (modifiers.bind (·.fetch "$hint")) := by
    rw [hm "$hint"]
    cases hz : options.fetch "hint" <;> simp [hintOption,MergedOption.given,hz]
  rw [hgiven]
  unfold QueryOutside.initHint at h
  cases hoption : options.fetch "hint" with
  | some value =>
    rw [hoption] at h
    obtain ⟨heg,v,hv,hopts⟩ := QueryOutside.appendHint_eq h
    exact ⟨heg,some v,⟨hv.symm,Option.some_ne_none v⟩,hopts⟩
  | none =>
    cases hmodifier : modifiers.bind (·.fetch "$hint") with
    | some value =>
      rw [hoption,hmodifier] at h
      obtain ⟨heg,v,hv,hopts⟩ := QueryOutside.appendHint_eq h
      exact ⟨heg,some v,⟨hv.symm,Option.some_ne_none v⟩,hopts⟩
    | none =>
      rw [hoption,hmodifier] at h
      cases h
      exact ⟨rfl,none,rfl,(List.append_nil _).symm⟩

theorem QueryOutside.fetchLong_fst (options : Options) (eg : Pending) :
    (E.fetchLong options "limit" eg).1 = some (E.limit options) := by
  unfold QueryOutside.fetchLong QueryOutside.limit
  cases options.fetch "limit" with
  | none => rfl
  | some z => exact QueryOutside.zvalToLong_fst z eg

theorem QueryOutside.keeps_fetchLong (options : Options) (key : String) :
    (E.fetchLong options key).Keeps := by
  unfold QueryOutside.fetchLong
  cases options.fetch key with
  | none => exact keeps_pure 0
  | some z => exact QueryOutside.keeps_zvalToLong z

theorem QueryOutside.initLimitAndSinglebatch_eq
    (h : E.initLimitAndSinglebatch options opts eg = (some opts',[])) :
    eg = [] ∧ E.LimitAccepted options ∧
      opts' = opts ++ present (E.limitEntries options) := by
  obtain ⟨n,eg',hn,hrest⟩ := bind_eq_some.mp h
  have hlimit := QueryOutside.fetchLong_fst (E:=E) options eg ▸ congrArg Prod.fst hn
  cases hlimit
  unfold QueryOutside.limitEntries
  split at hrest
  · rename_i hneg
    obtain ⟨n,eg'',hn',hrest⟩ := bind_eq_some.mp hrest
    have hlimit := QueryOutside.fetchLong_fst (E:=E) options eg' ▸ congrArg Prod.fst hn'
    cases hlimit
    rw [if_pos hneg]
    split at hrest
    · cases hrest
    · rename_i hfalse
      cases hrest
      have heg' := (QueryOutside.keeps_fetchLong options "limit").eq_nil (by rw [hn'])
      subst heg'
      have heg := (QueryOutside.keeps_fetchLong options "limit").eq_nil (by rw [hn])
      subst heg
      exact ⟨rfl,⟨by rw [hn],fun hconflict => hfalse hconflict.2⟩,by simp [present]⟩
  · rename_i hneg
    obtain ⟨opts₁,eg₁,hfirst,hrest⟩ := bind_eq_some.mp hrest
    obtain ⟨opts₂,eg₂,hsecond,hpure⟩ := bind_eq_some.mp hrest
    cases hpure
    obtain ⟨rfl,v₂,hv₂,rfl⟩ := QueryOutside.statement_eq "singleBatch" .bool
      (by simp [QueryOptMacro.kind]) hsecond
    obtain ⟨rfl,v₁,hv₁,rfl⟩ := QueryOutside.statement_eq "limit" .int64
      (by simp [QueryOptMacro.kind]) hfirst
    have heg := (QueryOutside.keeps_fetchLong options "limit").eq_nil (by rw [hn])
    subst heg
    rw [if_neg hneg]
    refine ⟨rfl,⟨by rw [hn],fun hconflict => hneg hconflict.1⟩,?_⟩
    rw [hv₁.eq_bind,hv₂.eq_bind,firstGiven_single,firstGiven_single,List.append_assoc,
      ← present_append,Option.map_eq_bind,Option.map_eq_bind]
    rfl

theorem QueryOutside.keeps_initReadConcern (options : Options) :
    (E.initReadConcern options).Keeps := by
  unfold QueryOutside.initReadConcern
  cases options.fetch "readConcern" with
  | none => exact keeps_pure none
  | some z =>
    dsimp only
    cases E.readConcern z with
    | none => exact keeps_throw _
    | some rc => exact keeps_pure _

theorem QueryOutside.keeps_initMaxAwaitTimeMs (options : Options) :
    (E.initMaxAwaitTimeMs options).Keeps := by
  unfold QueryOutside.initMaxAwaitTimeMs
  cases options.fetch "maxAwaitTimeMS" with
  | none => exact keeps_pure 0
  | some z =>
    refine (QueryOutside.keeps_zvalToLong z).bind fun n => ?_
    split
    · exact keeps_throw _
    · split
      · exact keeps_throw _
      · exact keeps_pure _

/-- What an accepted call does for options other than "limit" and "singleBatch"; `opts` is the
document it appends these two to. -/
structure QueryOutside.AcceptsOthers (E : QueryOutside Rc) (filter : Zval) (options : Options)
    (opts : Doc) (q : Query Rc) : Prop where
  arrayOrObject : filter.isArrayOrObject = true
  filterToBson : E.toBson filter [] = (some q.filter,[])
  filterValid : E.bsonValidate q.filter = true
  appended : ∃ modifiers opts₁, fetchModifiers options [] = (some modifiers,[]) ∧
    E.statements options modifiers queryStatements [] [] = (some opts₁,[]) ∧
    E.initHint options modifiers opts₁ [] = (some opts,[])
  readConcern : E.initReadConcern options [] = (some q.readConcern,[])
  maxAwaitTimeMs : E.initMaxAwaitTimeMs options [] = (some q.maxAwaitTimeMs,[])

theorem QueryOutside.accepts_iff {filter : Zval} {ht : Option ℕ} {q : Query Rc} :
    E.Accepts filter (.array ht options) q ↔ ∃ opts, E.AcceptsOthers filter options opts q ∧
      E.initLimitAndSinglebatch options opts [] = (some q.opts,[]) := by
  constructor
  · intro h
    unfold QueryOutside.Accepts QueryOutside.construct at h
    split at h
    · rename_i harray
      obtain ⟨bson,eg₁,hbson,hvalidated⟩ := bind_eq_some.mp h
      split at hvalidated
      · rename_i hvalid
        obtain ⟨modifiers,eg₂,hmodifiers,hrest⟩ := bind_eq_some.mp hvalidated
        obtain ⟨opts₁,eg₃,hstatements,hrest⟩ := bind_eq_some.mp hrest
        obtain ⟨opts₂,eg₄,hhint,hrest⟩ := bind_eq_some.mp hrest
        obtain ⟨opts₃,eg₅,hlimit,hrest⟩ := bind_eq_some.mp hrest
        obtain ⟨rc,eg₆,hrc,hrest⟩ := bind_eq_some.mp hrest
        obtain ⟨n,eg₇,hn,hpure⟩ := bind_eq_some.mp hrest
        cases hpure
        -- nothing is pending at the end, so nothing was pending after any step
        have heg₆ := (QueryOutside.keeps_initMaxAwaitTimeMs options).eq_nil (by rw [hn])
        subst heg₆
        have heg₅ := (QueryOutside.keeps_initReadConcern options).eq_nil (by rw [hrc])
        subst heg₅
        obtain ⟨hnil,hm⟩ := fetchModifiers_eq hmodifiers
        obtain ⟨rfl,-,-⟩ := QueryOutside.initLimitAndSinglebatch_eq hlimit
        obtain ⟨rfl,-⟩ := QueryOutside.initHint_eq hm hhint
        obtain ⟨rfl,-⟩ := QueryOutside.statements_eq forall₂_appends hm hstatements
        subst hnil
        exact ⟨opts₂,⟨harray,hbson,hvalid,
          ⟨modifiers,opts₁,hmodifiers,hstatements,hhint⟩,hrc,hn⟩,hlimit⟩
      · cases hvalidated
    · cases h
  · rintro ⟨opts,h,hlimit⟩
    obtain ⟨modifiers,opts₁,hmodifiers,hstatements,hhint⟩ := h.appended
    unfold QueryOutside.Accepts QueryOutside.construct
    rw [if_pos h.arrayOrObject]
    refine (bind_of_some h.filterToBson).trans ?_
    rw [if_pos h.filterValid]
    refine (bind_of_some hmodifiers).trans ((bind_of_some hstatements).trans ?_)
    refine (bind_of_some hhint).trans ((bind_of_some hlimit).trans ?_)
    exact (bind_of_some h.readConcern).trans (bind_of_some h.maxAwaitTimeMs)

/-- The opts of a Query: the entries of the options, present where they are given. -/
theorem QueryOutside.Accepts.opts_eq {filter : Zval} {ht : Option ℕ} {q : Query Rc}
    (h : E.Accepts filter (.array ht options) q) :
    ∃ t, E.Entries options mergedOptions t ∧
      q.opts = present (t ++ E.limitEntries options) := by
  obtain ⟨opts,hothers,hlimit⟩ := QueryOutside.accepts_iff.mp h
  obtain ⟨modifiers,opts₁,hmodifiers,hstatements,hhint⟩ := hothers.appended
  have hm := (fetchModifiers_eq hmodifiers).2
  obtain ⟨-,t,ht,rfl⟩ := QueryOutside.statements_eq forall₂_appends hm hstatements
  obtain ⟨-,v,hv,rfl⟩ := QueryOutside.initHint_eq hm hhint
  refine ⟨t ++ [(CString.lit "hint",v)],?_,?_⟩
  · exact List.rel_append ht (List.Forall₂.cons ⟨rfl,hv⟩ List.Forall₂.nil)
  · rw [(QueryOutside.initLimitAndSinglebatch_eq hlimit).2.2,present_append,present_append]
    rfl

theorem QueryOutside.Entries.keys_eq {os : List MergedOption}
    {t : Table CString (Option BsonValue)} (h : E.Entries options os t) :
    keys t = os.map fun o => CString.lit o.opt := by
  induction h with
  | nil => rfl
  | cons hhead htail ih => rw [keys_cons,List.map_cons,hhead.1,ih]

theorem QueryOutside.Entries.of_mem {os : List MergedOption}
    {t : Table CString (Option BsonValue)} (h : E.Entries options os t) {o : MergedOption}
    (ho : o ∈ os) :
    ∃ v, (CString.lit o.opt,v) ∈ t ∧ E.Becomes o.kind (o.given options) v := by
  induction h with
  | nil => exact absurd ho List.not_mem_nil
  | cons hhead htail ih =>
    rcases List.mem_cons.mp ho with rfl | ho
    · exact ⟨_,hhead.1 ▸ List.mem_cons_self,hhead.2⟩
    · obtain ⟨v,hv,hbecomes⟩ := ih ho
      exact ⟨v,List.mem_cons_of_mem _ hv,hbecomes⟩

def optsKeys : List CString :=
  (mergedOptions.map fun o => CString.lit o.opt) ++ [CString.lit "limit",CString.lit "singleBatch"]

theorem nodup_optsKeys : optsKeys.Nodup := by decide

theorem QueryOutside.keys_limitEntries (E : QueryOutside Rc) (options : Options) :
    keys (E.limitEntries options) = [CString.lit "limit",CString.lit "singleBatch"] := by
  unfold QueryOutside.limitEntries
  split <;> rfl

theorem findSome?_fetch_congr {l : List String} {options' : Options}
    (h : ∀ key ∈ l, options.fetch key = options'.fetch key) :
    l.findSome? options.fetch = l.findSome? options'.fetch := by
  induction l with
  | nil => rfl
  | cons key l ih =>
    obtain ⟨hkey,hrest⟩ := List.forall_mem_cons.mp h
    rw [List.findSome?_cons,List.findSome?_cons,hkey,ih hrest]

theorem MergedOption.SameIn.given_eq {o : MergedOption} {options' : Options}
    (h : o.SameIn options options') : o.given options = o.given options' := by
  unfold MergedOption.given
  congr 1
  · exact findSome?_fetch_congr h.1
  · cases hm : o.modifier with
    | none => rfl
    | some key => exact h.2 key hm

theorem QueryOutside.Accepts.find?_opts {filter : Zval} {ht : Option ℕ} {q : Query Rc}
    (h : E.Accepts filter (.array ht options) q) :
    (keys q.opts).Sublist optsKeys ∧
      (∀ o ∈ mergedOptions, E.Becomes o.kind (o.given options)
        (find? q.opts (CString.lit o.opt))) ∧
      ∀ e ∈ E.limitEntries options, find? q.opts e.1 = e.2 := by
  obtain ⟨t,ht,hopts⟩ := h.opts_eq
  have hkeys : keys (t ++ E.limitEntries options) = optsKeys := by
    rw [keys_append,ht.keys_eq,E.keys_limitEntries]
    rfl
  have hn : (keys (t ++ E.limitEntries options)).Nodup := by
    rw [hkeys]
    exact nodup_optsKeys
  rw [hopts,← hkeys]
  refine ⟨keys_present _,?_,?_⟩
  · intro o ho
    obtain ⟨v,hv,hbecomes⟩ := ht.of_mem ho
    rwa [find?_present hn (List.mem_append_left _ hv)]
  · intro e he
    exact find?_present hn (List.mem_append_right t he)

/-- Every option of libmongoc is in the opts of a Query at most once, where it is given, with the
value it is given, whatever the other options are. -/
theorem merged_options {filter : Zval} {ht : Option ℕ} {q : Query Rc}
    (h : E.Accepts filter (.array ht options) q) :
    (keys q.opts).Nodup ∧ (∀ key ∈ keys q.opts, key ∈ optsKeys) ∧
      (∀ o ∈ mergedOptions, E.Becomes o.kind (o.given options)
        (find? q.opts (CString.lit o.opt))) ∧
      (∀ e ∈ E.limitEntries options, find? q.opts e.1 = e.2) ∧
      ∀ filter' ht' options' q', E.Accepts filter' (.array ht' options') q' →
        ∀ o ∈ mergedOptions, o.SameIn options options' →
          find? q.opts (CString.lit o.opt) = find? q'.opts (CString.lit o.opt) := by
  obtain ⟨hkeys,hentries,hlimit⟩ := h.find?_opts
  refine ⟨hkeys.nodup nodup_optsKeys,fun key hkey => hkeys.subset hkey,hentries,hlimit,?_⟩
  intro filter' ht' options' q' h' o ho hsame
  obtain ⟨-,hentries',-⟩ := h'.find?_opts
  rw [(hentries o ho).eq_bind,(hentries' o ho).eq_bind,hsame.given_eq]

end

def QueryOutside.plain : QueryOutside Unit where
  libbson := Libbson.ascii
  userland := Userland.keeping ClassEntry.person
  bsonValidate d := d.all fun e => e.1.bytes ≠ []
  parameterError := invalidArgument "Query::__construct() expects parameter 1 to be array" []
  deprecated _ := []
  convertToLong _ := (0,[])
  readConcern _ := none

/-- Options with an alias next to its option, and with modifiers. -/
def Options.merging : Options :=
  [(.str (ascii "partial"),.bool true),(.str (ascii "allowPartialResults"),.bool false),
    (.str (ascii "comment"),.string (ascii "a")),
    (.str (ascii "modifiers"),.array none
      [(.str (ascii "$comment"),.string (ascii "b")),(.str (ascii "$maxTimeMS"),.long 5)])]

theorem plain_accepts_merging :
    QueryOutside.plain.Accepts (.array none []) (.array none Options.merging)
      ⟨[],[(CString.lit "allowPartialResults",.bool false),
        (CString.lit "comment",.utf8 (ascii "a")),(CString.lit "maxTimeMS",.int64 5)],none,0⟩ := rfl

theorem merged_options_aliased :
    find? [(CString.lit "allowPartialResults",BsonValue.bool false),
      (CString.lit "comment",.utf8 (ascii "a")),(CString.lit "maxTimeMS",.int64 5)]
      (CString.lit "allowPartialResults") = some (.bool false) :=
  ((merged_options plain_accepts_merging).2.2.1 ⟨"allowPartialResults",.bool,
    ["allowPartialResults","partial"],none⟩ (by decide)).1

end Phongo
