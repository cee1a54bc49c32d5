import Mathlib.Tactic.Common
import Phongo.BulkWrite.Builder
import Phongo.Bson.Materialise
import Phongo.Lib.Run

/-! The operations of a BulkWrite against its calls. A call that throws has added nothing, but
for an insertion whose `_id` cannot be read back. -/
namespace Phongo
open Transition OrderedTable

/-- The `_id` of a document, which `bson_iter_init_find` finds first. -/
def Doc.id (d : Doc) : Option BsonValue := (d.find? fun f => f.1 = idName).map Prod.snd

namespace BulkOutside
variable (E : BulkOutside)

/-- How `php_phongo_bulkwrite_extract_id` decodes. -/
def idTypemap : Typemap := { Typemap.default with rootType := .nativeArray }

/-- An `_id` as a PHP value, and what its `bsonUnserialize()` methods throw. -/
def decodedId (id : BsonValue) : Zval × Pending :=
  materialise E.libbson E.userland idTypemap [idName] [] id

/-- The `_id` can be decoded, and no `bsonUnserialize()` or autoloader throws. -/
def IdReadable (id : BsonValue) : Prop :=
  acceptsAll E.libbson [(idName,id)] = true ∧ (E.decodedId id).2 = []

/-- An insertion that libmongoc takes has an `_id` that can be read back. -/
def Sound (b : BulkWrite) : BulkCall → Prop
  | .insert zdocument =>
    let r := zvalToBson E.libbson E.userland zdocument ⟨true,true⟩ []
    zdocument.isArrayOrObject = true → r.2.2 = [] → E.refuses b.bulk (.insert r.1) = none →
      ∃ id, r.2.1 = some [(idName,id)] ∧ E.IdReadable id
  | _ => True

/-- What a call promises: all or nothing, and the `_id` of what was inserted. -/
structure Accounts (b : BulkWrite) (c : BulkCall) : Prop where
  thrown : (E.call b c).exceptions ≠ [] → (E.call b c).write = b
  returned : (E.call b c).exceptions = [] → ∃ op, (E.call b c).write = b.append op
  inserted : ∀ zdocument, c = .insert zdocument → (E.call b c).exceptions = [] →
    ∃ document id, (E.call b c).write = b.append (.insert document) ∧ Doc.id document = some id ∧
      (E.call b c).value = (E.decodedId id).1

end BulkOutside

section Id
variable {L : Libbson} {U : Userland}

theorem exceptions_of_aborted (fromProperties skip : Bool) (els : List (Key × Zval))
    (addId : Bool) (e : Encoder)
    (h : (appendAll L U fromProperties skip els addId e).aborted = true) :
    (appendAll L U fromProperties skip els addId e).encoder.exceptions ≠ [] := by
  induction els generalizing addId e with
  | nil => simp [appendAll] at h
  | cons el rest ih =>
    obtain ⟨key,value⟩ := el
    rw [appendAll] at h ⊢
    split
    · rename_i hskip
      rw [hskip] at h
      exact ih addId e h
    · exact List.cons_ne_nil _ _
    · rename_i name hname
      rw [hname] at h
      exact ih _ _ h

theorem exceptions_of_aborted_table (fromProperties skip : Bool) (z : Zval) (addId : Bool)
    (e : Encoder) (h : (appendTable L U fromProperties skip z addId e).aborted = true) :
    (appendTable L U fromProperties skip z addId e).encoder.exceptions ≠ [] := by
  cases z with
  | array ht els => exact exceptions_of_aborted fromProperties skip els addId e h
  | object ce ht properties returned =>
    exact exceptions_of_aborted fromProperties skip properties addId e h
  | _ => simp [appendTable] at h

/-- What is stored in `*bson_out` is the `_id` of the document. -/
def StoresId (r : Doc × Encoder) : Prop :=
  r.2.bsonOut = none ∨ r.2.bsonOut = some (r.1.find? fun f => f.1 = idName).toList

theorem finishFields_storesId (r : Looped) : StoresId (finishFields L true r) := by
  unfold finishFields
  split
  exact Or.inr rfl

theorem closeFields_storesId {loop : Loop} {addId : Bool} {e : Encoder}
    (haborted : (loop addId e).aborted = true → (loop addId e).encoder.exceptions ≠ [])
    (h : (closeFields L loop ⟨addId,true⟩ e).2.exceptions = []) :
    StoresId (closeFields L loop ⟨addId,true⟩ e) := by
  rw [exceptions_closeFields] at h
  unfold closeFields
  rw [if_neg fun ha => haborted ha h]
  exact finishFields_storesId _

theorem StoresId.withOdm {r : Doc × Encoder} (h : StoresId r) (ce : ClassEntry) :
    StoresId (if ce.isPersistable then (odmField ce::r.1,r.2) else r) := by
  have hne : (odmField ce).1 ≠ idName := by
    show odmFieldName ≠ idName
    decide
  split
  · refine h.imp id fun hstored => ?_
    rw [List.find?_cons_of_neg (by simpa using hne)]
    exact hstored
  · exact h

theorem internalObject_storesId (ce : ClassEntry) (returned : Zval) {table properties : Loop}
    {addId : Bool} {e : Encoder} (he : e.bsonOut = none)
    (ht : ∀ addId e, (table addId e).aborted = true → (table addId e).encoder.exceptions ≠ [])
    (hp : ∀ addId e, (properties addId e).aborted = true →
      (properties addId e).encoder.exceptions ≠ [])
    (h : (internalObject L ce returned table properties ⟨addId,true⟩ e).2.exceptions = []) :
    StoresId (internalObject L ce returned table properties ⟨addId,true⟩ e) := by
  have hcall : (callBsonSerialize returned e).2.bsonOut = none := by
    unfold callBsonSerialize
    split
    · split <;> exact he
    · exact he
  unfold internalObject at h ⊢
  dsimp only at h ⊢
  split
  · split
    · exact Or.inl hcall
    · split
      · exact Or.inl hcall
      · rename_i hser hundef harray
        rw [if_pos hser,if_neg hundef,if_neg harray] at h
        refine StoresId.withOdm (closeFields_storesId (ht _ _) ?_) ce
        split at h <;> exact h
  · split
    · exact Or.inl he
    · rename_i hser htype
      rw [if_neg hser,if_neg htype] at h
      exact closeFields_storesId (hp _ _) h

theorem zvalToBson_storesId (z : Zval) (addId : Bool)
    (h : (zvalToBson L U z ⟨addId,true⟩ []).2.2 = []) :
    StoresId (internal L U z ⟨addId,true⟩ (Encoder.init [])) := by
  change (internal L U z ⟨addId,true⟩ (Encoder.init [])).2.exceptions = [] at h
  cases z with
  | array ht els =>
    rw [internal] at h ⊢
    exact closeFields_storesId (exceptions_of_aborted false false els _ _) h
  | object ce ht properties returned =>
    rw [internal] at h ⊢
    exact internalObject_storesId ce returned rfl
      (exceptions_of_aborted_table false ce.isPersistable returned)
      (exceptions_of_aborted true false properties) h
  | cursorId id =>
    rw [internal] at h ⊢
    exact closeFields_storesId (fun ha => by cases ha) h
  | _ => exact Or.inl rfl

end Id

namespace BulkOutside
variable {E : BulkOutside}

/-- The `_id` read back is decoded as any value of the same typemap. -/
theorem extractId_single (id : BsonValue) :
    (acceptsAll E.libbson [(idName,id)] = true → E.extractId [(idName,id)] = E.decodedId id) ∧
    (acceptsAll E.libbson [(idName,id)] = false → (E.extractId [(idName,id)]).2 ≠ []) := by
  constructor
  · intro h
    obtain ⟨hok,hchild,hexceptions⟩ := bsonToZvalEx_fresh (U:=E.userland) h idTypemap []
    have hignores : E.userland.Ignores idName id := ignores_of_ne (by decide) id
    have hodm : E.userland.pclassOf [(idName,id)] = none := by
      rw [Userland.pclassOf,hignores.unset]
      rfl
    have hroot : materialiseRoot E.libbson E.userland idTypemap [] [(idName,id)] =
        (.array none [(symtable idName.bytes,(E.decodedId id).1)],(E.decodedId id).2) := by
      rw [materialiseRoot,hodm]
      simp only [materialiseAll,hignores.loads]
      rfl
    unfold extractId
    dsimp only
    rw [show ({ Typemap.default with rootType := .nativeArray } : Typemap) = idTypemap from rfl,
      if_pos hok,hchild,hexceptions,hroot]
    have hkey : symtable idName.bytes = symtable (ascii "_id") := rfl
    simp [Options.fetch,OrderedTable.find?,hkey]
  · intro h
    obtain ⟨hok,hexceptions,-⟩ := bsonToZvalRoot_rejects (U:=E.userland) h true
      { BsonState.init with map := idTypemap } []
    have hfalse : (bsonToZvalEx E.libbson E.userland (.read [(idName,id)] true)
      { BsonState.init with map := idTypemap } []).ok = false := hok
    unfold extractId
    dsimp only
    rw [show ({ Typemap.default with rootType := .nativeArray } : Typemap) = idTypemap from rfl,
      hfalse,if_neg Bool.false_ne_true]
    exact hexceptions

section Operations
open Attempt

def Decides {α : Type} (m : Attempt Exception α) : Prop := m.Reports ∧ m.Clean

theorem decides_pure {α : Type} (a : α) : Decides (pure a : Attempt Exception α) :=
  ⟨reports_pure a,clean_pure a⟩

theorem decides_throw {α : Type} (e : Exception) :
    Decides (Attempt.throw e : Attempt Exception α) := ⟨reports_throw e,clean_throw e⟩

theorem Decides.bind {α β : Type} {m : Attempt Exception α} {f : α → Attempt Exception β}
    (hm : Decides m) (hf : ∀ a, Decides (f a)) : Decides (m >>= f) :=
  ⟨hm.1.bind fun a => (hf a).1,hm.2.bind fun a => (hf a).2⟩

theorem decides_ite {α : Type} {p : Prop} [Decidable p] {m m' : Attempt Exception α}
    (h : Decides m) (h' : Decides m') : Decides (if p then m else m') := by
  split
  · exact h
  · exact h'

theorem decides_convert (z : Zval) : Decides (E.convert z) := by
  refine ⟨Reports.bind (fun eg h => by cases h) fun d => ?_,clean_bind_check⟩
  exact Reports.bind reports_check fun _ => reports_pure d

theorem decides_optsConvert (key : String) (value : Zval) : Decides (E.optsConvert key value) :=
  decides_ite (decides_convert value) (decides_throw _)

theorem decides_optsAppendDocument (opts : Doc) (key : String) (value : Zval) :
    Decides (E.optsAppendDocument opts key value) :=
  (decides_optsConvert key value).bind fun _ => decides_pure _

theorem decides_optsAppendArray (opts : Doc) (key : String) (value : Zval) :
    Decides (E.optsAppendArray opts key value) :=
  (decides_optsConvert key value).bind fun _ => decides_ite (decides_pure _) (decides_throw _)

theorem decides_optDocument (options : Option Options) (key : String) (opts : Doc) :
    Decides (E.optDocument options key opts) := by
  unfold optDocument
  split
  · exact decides_optsAppendDocument opts key _
  · exact decides_pure opts

theorem decides_optArray (options : Option Options) (key : String) (opts : Doc) :
    Decides (E.optArray options key opts) := by
  unfold optArray
  split
  · exact decides_optsAppendArray opts key _
  · exact decides_pure opts

theorem decides_optHint (options : Option Options) (opts : Doc) :
    Decides (E.optHint options opts) := by
  unfold optHint
  split
  · exact decides_pure opts
  · exact decides_pure _
  · exact decides_ite (decides_optDocument options "hint" opts) (decides_throw _)

theorem decides_parseArrayOrObject (z : Zval) : Decides (E.parseArrayOrObject z) :=
  decides_ite (decides_pure z) (decides_throw _)

theorem decides_parseOptions (z : Zval) : Decides (E.parseOptions z) := by
  unfold parseOptions
  split
  · exact decides_pure none
  · exact decides_pure _
  · exact decides_throw _

theorem decides_updateOperation (zquery zupdate zoptions : Zval) :
    Decides (E.updateOperation zquery zupdate zoptions) := by
  refine (decides_parseArrayOrObject zquery).bind fun zquery => ?_
  refine (decides_parseArrayOrObject zupdate).bind fun zupdate => ?_
  refine (decides_parseOptions zoptions).bind fun options => ?_
  refine (decides_convert zquery).bind fun bquery => ?_
  refine (decides_convert zupdate).bind fun bupdate => ?_
  have hopts : Decides (E.updateApplyOptions options) :=
    (decides_optArray options _ _).bind fun _ =>
      (decides_optDocument options _ _).bind fun _ => decides_optHint options _
  refine hopts.bind fun boptions => ?_
  exact decides_ite (decides_pure _) (decides_ite (decides_throw _) (decides_pure _))

theorem decides_deleteOperation (zquery zoptions : Zval) :
    Decides (E.deleteOperation zquery zoptions) := by
  refine (decides_parseArrayOrObject zquery).bind fun zquery => ?_
  refine (decides_parseOptions zoptions).bind fun options => ?_
  refine (decides_convert zquery).bind fun bquery => ?_
  have hopts : Decides (E.deleteApplyOptions options) :=
    (decides_optDocument options _ _).bind fun _ => decides_optHint options _
  exact hopts.bind fun boptions => decides_pure _

end Operations

/-- How a call ends: it throws and leaves everything as it was, or it adds one operation. -/
inductive Ending (b : BulkWrite) (r : BulkResult) : Prop
  | threw (write : r.write = b) (exceptions : r.exceptions ≠ [])
  | added (op : BulkOperation) (write : r.write = b.append op) (exceptions : r.exceptions = [])

theorem addOperation_ending {operation : Attempt Exception BulkOperation}
    (h : Decides operation) (b : BulkWrite) : Ending b (E.addOperation operation b) := by
  unfold addOperation
  rcases hop : operation [] with ⟨_ | op,eg⟩
  · have hreports := h.1 []
    rw [hop] at hreports
    exact .threw rfl (hreports rfl)
  · obtain rfl := h.2 op eg hop
    dsimp only [add]
    cases E.refuses b.bulk op with
    | some e => exact .threw rfl (List.cons_ne_nil _ _)
    | none => exact .added op rfl rfl

theorem append_ne (b : BulkWrite) (op : BulkOperation) : b.append op ≠ b := fun h => by
  have hcount := congrArg BulkWrite.numOps h
  exact absurd hcount (Nat.succ_ne_self _)

theorem accounts_of_threw {b : BulkWrite} {c : BulkCall} (hwrite : (E.call b c).write = b)
    (hexceptions : (E.call b c).exceptions ≠ []) : E.Accounts b c :=
  ⟨fun _ => hwrite,fun h => absurd h hexceptions,fun _ _ h => absurd h hexceptions⟩

theorem accounts_of_ending {b : BulkWrite} {c : BulkCall} (h : Ending b (E.call b c))
    (hc : ∀ zdocument, c ≠ .insert zdocument) : E.Accounts b c := by
  cases h with
  | threw hwrite hexceptions => exact accounts_of_threw hwrite hexceptions
  | added op hwrite hexceptions =>
    exact ⟨fun h => absurd hexceptions h,fun _ => ⟨op,hwrite⟩,fun d hd => absurd hd (hc d)⟩

structure Taken (E : BulkOutside) (b : BulkWrite) (zdocument : Zval) (document : Doc)
    (bsonOut : Option Doc) : Prop where
  parameter : zdocument.isArrayOrObject = true
  encoded : zvalToBson E.libbson E.userland zdocument ⟨true,true⟩ [] = (document,bsonOut,[])
  accepted : E.refuses b.bulk (.insert document) = none

theorem insert_cases (b : BulkWrite) (zdocument : Zval) :
    (∃ document bsonOut, Taken E b zdocument document bsonOut) ∨
    (E.insert zdocument b).write = b ∧ (E.insert zdocument b).exceptions ≠ [] ∧
      E.Sound b (.insert zdocument) := by
  rcases hr : zvalToBson E.libbson E.userland zdocument ⟨true,true⟩ [] with ⟨document,bsonOut,eg⟩
  unfold insert Sound add
  simp only [hr]
  by_cases hparameter : zdocument.isArrayOrObject = true
  · rw [if_pos hparameter]
    by_cases heg : eg = []
    · subst heg
      rw [if_pos rfl]
      cases haccepted : E.refuses b.bulk (.insert document) with
      | none => exact Or.inl ⟨document,bsonOut,hparameter,hr,haccepted⟩
      | some e => exact Or.inr ⟨rfl,List.cons_ne_nil _ _,fun _ _ h => by cases h⟩
    · rw [if_neg heg]
      exact Or.inr ⟨rfl,heg,fun _ h => absurd h heg⟩
  · rw [if_neg hparameter]
    exact Or.inr ⟨rfl,List.cons_ne_nil _ _,fun h => absurd h hparameter⟩

namespace Taken
variable {b : BulkWrite} {zdocument : Zval} {document : Doc}

theorem sound_iff {bsonOut : Option Doc} (h : Taken E b zdocument document bsonOut) :
    E.Sound b (.insert zdocument) ↔ ∃ id, bsonOut = some [(idName,id)] ∧ E.IdReadable id := by
  unfold Sound
  simp only [h.encoded]
  exact ⟨fun hs => hs h.parameter trivial h.accepted,fun hs _ _ _ => hs⟩

/-- No `_id` is stored but where `bsonSerialize()` ends with neither a value nor an exception. -/
theorem insert_none (h : Taken E b zdocument document none) :
    (E.insert zdocument b).write = b.append (.insert document) ∧
      (E.insert zdocument b).exceptions ≠ [] := by
  unfold insert add
  simp only [h.parameter,h.encoded,h.accepted,if_true]
  exact ⟨trivial,List.cons_ne_nil _ _⟩

theorem insert_some {bsonOut : Doc} (h : Taken E b zdocument document (some bsonOut)) :
    E.insert zdocument b =
      ⟨b.append (.insert document),(E.extractId bsonOut).1,(E.extractId bsonOut).2⟩ := by
  unfold insert add
  simp only [h.parameter,h.encoded,h.accepted,if_true]

theorem stored {bsonOut : Doc} (h : Taken E b zdocument document (some bsonOut)) :
    bsonOut = (document.find? fun f => f.1 = idName).toList := by
  have hstores := zvalToBson_storesId (L:=E.libbson) (U:=E.userland) zdocument true
    (by rw [h.encoded])
  have hfields : (internal E.libbson E.userland zdocument ⟨true,true⟩ (Encoder.init [])).1 =
      document := congrArg Prod.fst h.encoded
  have hout : (internal E.libbson E.userland zdocument ⟨true,true⟩ (Encoder.init [])).2.bsonOut =
      some bsonOut := congrArg (fun r : Doc × Option Doc × Pending => r.2.1) h.encoded
  unfold StoresId at hstores
  rw [hout,hfields] at hstores
  exact hstores.elim (fun hn => by cases hn) fun hs => Option.some.inj hs

theorem accounts_iff {bsonOut : Option Doc} (h : Taken E b zdocument document bsonOut) :
    E.Accounts b (.insert zdocument) ↔ E.Sound b (.insert zdocument) := by
  rw [h.sound_iff]
  cases bsonOut with
  | none =>
    obtain ⟨hwrite,hexceptions⟩ := h.insert_none
    constructor
    · intro haccounts
      exact absurd (hwrite.symm.trans (haccounts.thrown hexceptions)) (append_ne _ _)
    · rintro ⟨id,hid,-⟩
      cases hid
  | some bsonOut =>
    have hinsert : E.call b (.insert zdocument) = _ := h.insert_some
    have hstored := h.stored
    cases hfind : document.find? fun f => f.1 = idName with
    | none =>
      -- nothing to decode: NULL is returned
      rw [hfind] at hstored
      subst hstored
      constructor
      · intro haccounts
        have hnil : (E.extractId []).2 = [] := rfl
        obtain ⟨d,id,hwrite,hid,-⟩ := haccounts.inserted zdocument rfl (by rw [hinsert]; exact hnil)
        rw [hinsert] at hwrite
        have hoperations := congrArg (fun b => b.bulk.operations) hwrite
        have hd : d = document := by
          have hlast := List.append_cancel_left hoperations
          simpa using hlast.symm
        rw [hd,Doc.id,hfind] at hid
        cases hid
      · rintro ⟨id,hid,-⟩
        cases hid
    | some field =>
      obtain ⟨key,id⟩ := field
      have hkey : key = idName := by simpa using List.find?_some hfind
      subst hkey
      rw [hfind] at hstored
      subst hstored
      obtain ⟨haccepted,hrejected⟩ := extractId_single (E:=E) id
      constructor
      · intro haccounts
        refine ⟨id,rfl,?_⟩
        have hexceptions : (E.extractId [(idName,id)]).2 = [] := by
          by_contra hne
          have hwrite := haccounts.thrown (by rw [hinsert]; exact hne)
          rw [hinsert] at hwrite
          exact append_ne _ _ hwrite
        cases ha : acceptsAll E.libbson [(idName,id)] with
        | false => exact absurd hexceptions (hrejected ha)
        | true => exact ⟨ha,by rw [← haccepted ha]; exact hexceptions⟩
      · rintro ⟨id',hid,hreadable⟩
        obtain rfl : id = id' := by simpa using hid
        have hextract := haccepted hreadable.1
        refine ⟨fun hne => ?_,fun _ => ⟨.insert document,by rw [hinsert]⟩,fun d _ _ => ?_⟩
        · rw [hinsert] at hne
          exact absurd ((congrArg Prod.snd hextract).trans hreadable.2) hne
        · refine ⟨document,id,by rw [hinsert],?_,?_⟩
          · rw [Doc.id,hfind]
            rfl
          · rw [hinsert]
            exact congrArg Prod.fst hextract

end Taken

theorem accounts_iff (b : BulkWrite) (c : BulkCall) : E.Accounts b c ↔ E.Sound b c := by
  cases c with
  | insert zdocument =>
    rcases E.insert_cases b zdocument with ⟨document,bsonOut,htaken⟩ | ⟨hwrite,hexceptions,hsound⟩
    · exact htaken.accounts_iff
    · exact iff_of_true (accounts_of_threw hwrite hexceptions) hsound
  | update zquery zupdate zoptions =>
    have hending := addOperation_ending (E:=E) (decides_updateOperation (E:=E) zquery zupdate zoptions) b
    exact iff_of_true (accounts_of_ending hending (fun _ => nofun)) trivial
  | delete zquery zoptions =>
    have hending := addOperation_ending (E:=E) (decides_deleteOperation (E:=E) zquery zoptions) b
    exact iff_of_true (accounts_of_ending hending (fun _ => nofun)) trivial

/-- No call adds more than it counts. -/
theorem write_cases (b : BulkWrite) (c : BulkCall) :
    (E.call b c).write = b ∨ ∃ op, (E.call b c).write = b.append op := by
  have hending : ∀ r, Ending b r → r.write = b ∨ ∃ op, r.write = b.append op := by
    rintro r (⟨hwrite,-⟩ | ⟨op,hwrite,-⟩)
    · exact Or.inl hwrite
    · exact Or.inr ⟨op,hwrite⟩
  cases c with
  | insert zdocument =>
    rcases E.insert_cases b zdocument with ⟨document,bsonOut,htaken⟩ | ⟨hwrite,-⟩
    · refine Or.inr ⟨.insert document,?_⟩
      cases bsonOut with
      | none => exact htaken.insert_none.1
      | some bsonOut => exact congrArg BulkResult.write htaken.insert_some
    · exact Or.inl hwrite
  | update zquery zupdate zoptions =>
    exact hending _ (addOperation_ending (E:=E) (decides_updateOperation (E:=E) zquery zupdate zoptions) b)
  | delete zquery zoptions =>
    exact hending _ (addOperation_ending (E:=E) (decides_deleteOperation (E:=E) zquery zoptions) b)

end BulkOutside

def BulkWrite.Step (E : BulkOutside) (b : BulkWrite) (c : BulkCall) (b' : BulkWrite) : Prop :=
  b' = (E.call b c).write

/-- After any calls the count is that of the operations held, and the next call is all or
nothing exactly if an `_id` it inserts can be read back. -/
theorem BulkWrite.accounts_of_reaches (E : BulkOutside) (options : Option Options)
    {b : BulkWrite} (h : Reaches (BulkWrite.Step E) always (BulkWrite.construct options) b) :
    b.count = b.bulk.operations.length ∧ ∀ c, E.Accounts b c ↔ E.Sound b c := by
  refine ⟨h.invariant (I:=fun b => b.numOps = b.bulk.operations.length) ?_ rfl,E.accounts_iff b⟩
  rintro b c b' hb - rfl
  rcases E.write_cases b c with hwrite | ⟨op,hwrite⟩
  · rw [hwrite]
    exact hb
  · rw [hwrite]
    simp [append,hb]

/-- After one insertion. -/
theorem BulkWrite.accounts_of_reaches_insert :
    let E : BulkOutside := ⟨.ascii,.keeping .person,.userland 0,fun _ _ => none⟩
    let b := (E.call (BulkWrite.construct none) (.insert (.array none []))).write
    b.count = 1 ∧ b.bulk.operations.length = 1 ∧ ∀ c, E.Accounts b c ↔ E.Sound b c := by
  intro E b
  have hcount : b.count = 1 := by decide +kernel
  obtain ⟨hlength,haccounts⟩ := BulkWrite.accounts_of_reaches E none (b:=b)
    (Reaches.refl.tail (.insert (.array none [])) trivial rfl)
  exact ⟨hcount,hlength.symm.trans hcount,haccounts⟩

/-- A Persistable `_id` whose `bsonUnserialize()` throws: the exception leaves `insert()` when
the document has been added. -/
theorem BulkWrite.not_accounts :
    ¬ ∀ (E : BulkOutside) (options : Option Options) (b : BulkWrite),
      Reaches (BulkWrite.Step E) always (BulkWrite.construct options) b → ∀ c, E.Accounts b c := by
  intro h
  let E : BulkOutside :=
    ⟨.ascii,{ Userland.keeping .person with bsonUnserialize := fun _ _ => (⟨[],.null⟩,[1]) },
      .userland 0,fun _ _ => none⟩
  let c : BulkCall := .insert (.array none [(.str (ascii "_id"),
    .object .person none [] (.array none []))])
  have hwrite := (h E none _ Reaches.refl c).thrown (by decide +kernel)
  have hcount : (E.call (BulkWrite.construct none) c).write.numOps = 1 := by decide +kernel
  rw [hwrite] at hcount
  exact absurd hcount (by decide)

end Phongo
