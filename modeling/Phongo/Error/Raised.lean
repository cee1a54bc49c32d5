import Mathlib.Tactic.Common
import Phongo.Error.Labels

/-! Which exception gets the error labels of a reply. -/
namespace Phongo
open OrderedTable

/-- An exception carries these labels, and `hasErrorLabel` answers for `l` accordingly. -/
def ExceptionObject.Labelled (x : ExceptionObject) (labels : List Bytes) (l : Bytes) : Prop :=
  x.Carries labels ∧ (x.hasErrorLabel l = true ↔ l ∈ labels)

/-- Where `l` agrees with a label up to a NUL, it is a label. -/
def ToldApart (labels : List Bytes) (l : Bytes) : Prop :=
  (∃ label ∈ labels, cstr label = cstr l) → l ∈ labels

theorem ExceptionObject.Carries.labelled_iff {x : ExceptionObject} {labels : List Bytes}
    (h : x.Carries labels) (l : Bytes) : x.Labelled labels l ↔ ToldApart labels l := by
  rw [ExceptionObject.Labelled,h.hasErrorLabel_iff,ToldApart]
  constructor
  · exact fun h' => h'.2.mp
  · exact fun h' => ⟨h,h',fun hl => ⟨l,hl,rfl⟩⟩

section
variable (E : ErrorOutside)

/-- The class of the exception for an error of libmongoc that comes with a reply. -/
def ErrorOutside.raisedClass (error : BsonError) : ExceptionClass :=
  if error.usesCommandException then .command
  else E.exceptionFromMongocDomain error.domain error.code

/-- The exception raised for the error, the first above those that were pending, is labelled. -/
def ErrorOutside.RaisesLabelled (error : BsonError) (reply : Doc) (eg : Chain) (l : Bytes) :
    Prop :=
  ∃ later raised, E.throwFromBsonErrorAndReply error (some reply) eg = later ++ raised::eg ∧
    raised.ce = E.raisedClass error ∧ raised.Labelled (labelsOf reply) l

/-- A failed bulk write ends in a labelled BulkWriteException, layered over the others, unless
the error is an argument error, which is reported by itself. -/
def ErrorOutside.BulkLabelled (error : BsonError) (reply : Doc) (writeResult : Zval) (eg : Chain)
    (l : Bytes) : Prop :=
  ¬ (error.domain = .command ∧ error.code = E.codes.commandInvalidArg) →
    ∃ final previous, E.throwBulkWriteException error reply writeResult eg = final::previous ∧
      previous = (if error.domain ≠ .server ∧ error.domain ≠ .writeConcern then
        E.throwFromBsonErrorAndReply error (some reply) eg else eg) ∧
      final.ce = .bulkWrite ∧ final.Labelled (labelsOf reply) l

/-- Labels do not go to the CommandException where the conversion of the reply ends with another
exception. -/
def ErrorOutside.Misplaces (error : BsonError) (reply : Doc) : Prop :=
  error.usesCommandException = true ∧ reportsAll E.libbson E.userland reply = true ∧
    labelsOf reply ≠ []

variable {E} {error : BsonError} {reply : Doc} {eg : Chain} {l : Bytes}

/-- The conversion of a reply throws exceptions of its own exactly where visiting it does. -/
theorem ErrorOutside.bsonToZval_cases (reply : Doc) (heg : eg ≠ []) :
    (reportsAll E.libbson E.userland reply = false ∧ ∃ z, E.bsonToZval reply eg = (z,eg)) ∨
      (reportsAll E.libbson E.userland reply = true ∧
        ∃ z later x, E.bsonToZval reply eg = (z,x::later ++ eg)) := by
  have hne : eg.map ExceptionObject.toException ≠ [] := by simpa using heg
  obtain ⟨-,thrown,hthrown,hnil⟩ :=
    bsonToZvalEx_stops E.libbson E.userland reply BsonState.init hne
  have hz : ∃ z, E.bsonToZval reply eg = (z,thrown.map ExceptionObject.ofException ++ eg) := by
    unfold ErrorOutside.bsonToZval
    simp only [hthrown]
    refine ⟨_,Prod.ext rfl ?_⟩
    simp
  obtain ⟨z,hz⟩ := hz
  cases thrown with
  | nil => exact Or.inl ⟨hnil.mp rfl,z,hz⟩
  | cons e later =>
    refine Or.inr ⟨?_,z,later.map ExceptionObject.ofException,ExceptionObject.ofException e,hz⟩
    rw [← Bool.not_eq_false]
    exact mt hnil.mpr (List.cons_ne_nil e later)

def commandException (error : BsonError) : ExceptionObject :=
  ⟨.command,"%s",[.bytes error.message.bytes],error.code,ExceptionClass.command.properties⟩

theorem ErrorOutside.throwFromBsonErrorAndReply_command
    (huses : error.usesCommandException = true) :
    E.throwFromBsonErrorAndReply error (some reply) eg =
      addErrorLabels (some reply) (match E.bsonToZval reply (commandException error::eg) with
        | (some zv,eg) => addExceptionProp "resultDocument" zv eg
        | (none,eg) => eg) := by
  unfold ErrorOutside.throwFromBsonErrorAndReply
  rw [huses]
  rfl

/-- Unless the conversion of the reply throws, the raised exception is the newest, and gets the
labels. -/
theorem ErrorOutside.raises_newest (eg : Chain)
    (h : ¬ (error.usesCommandException = true ∧ reportsAll E.libbson E.userland reply = true)) :
    ∃ y : ExceptionObject, E.throwFromBsonErrorAndReply error (some reply) eg = y::eg ∧
      y.ce = E.raisedClass error ∧
      ((E.raisedClass error).isRuntimeException = true → y.Carries (labelsOf reply)) := by
  cases huses : error.usesCommandException with
  | false =>
    unfold ErrorOutside.throwFromBsonErrorAndReply ErrorOutside.raisedClass
    rw [huses]
    obtain ⟨y,hy,hce,hcarries⟩ := addErrorLabels_carries reply
      (ExceptionObject.mk (E.exceptionFromMongocDomain error.domain error.code) "%s"
        [.bytes error.message.bytes] error.code _) eg
    exact ⟨y,hy,hce,fun hrt => hcarries (carries_new hrt _ _ _)⟩
  | true =>
    have hclass : E.raisedClass error = .command := by rw [ErrorOutside.raisedClass,huses]; rfl
    have hnew : (commandException error).Carries [] := carries_new rfl _ _ _
    rw [ErrorOutside.throwFromBsonErrorAndReply_command huses,hclass]
    rcases E.bsonToZval_cases reply (List.cons_ne_nil (commandException error) eg) with
      ⟨-,z,hz⟩ | ⟨hs,-⟩
    · rw [hz]
      cases z with
      | none =>
        obtain ⟨y,hy,hce,hcarries⟩ := addErrorLabels_carries reply (commandException error) eg
        exact ⟨y,hy,hce,fun _ => hcarries hnew⟩
      | some zv =>
        obtain ⟨x,hx,hxce,hxcarries⟩ := hnew.addProp exceptionProperty_errorLabels_ne.1 zv eg
        obtain ⟨y,hy,hce,hcarries⟩ := addErrorLabels_carries reply x eg
        simp only [hx,hy]
        exact ⟨y,rfl,hce.trans hxce,fun _ => hcarries hxcarries⟩
    · exact absurd ⟨huses,hs⟩ h

/-- Where the conversion of the reply throws, the CommandException stays without labels. -/
theorem ErrorOutside.raises_below (eg : Chain) (huses : error.usesCommandException = true)
    (hreports : reportsAll E.libbson E.userland reply = true) :
    ∃ (later : Chain) (y : ExceptionObject),
      E.throwFromBsonErrorAndReply error (some reply) eg = later ++ y::eg ∧
      y.ce = E.raisedClass error ∧ y.Carries [] := by
  rw [ErrorOutside.throwFromBsonErrorAndReply_command huses]
  rcases E.bsonToZval_cases reply (List.cons_ne_nil (commandException error) eg) with
    ⟨hs,-⟩ | ⟨-,z,later,x,hz⟩
  · rw [hs] at hreports
    cases hreports
  · have hclass : (commandException error).ce = E.raisedClass error := by
      rw [ErrorOutside.raisedClass,huses]
      rfl
    have hlabels : ∀ x : ExceptionObject, ∃ (later' : Chain),
        addErrorLabels (some reply) (x::later ++ commandException error::eg) =
          later' ++ commandException error::eg := fun x => by
      obtain ⟨y,hy,-,-⟩ := addErrorLabels_carries reply x (later ++ commandException error::eg)
      exact ⟨y::later,hy⟩
    have hnone : (commandException error).Carries [] := carries_new rfl _ _ _
    rw [hz]
    cases z with
    | none =>
      obtain ⟨later',hlater⟩ := hlabels x
      exact ⟨later',commandException error,hlater,hclass,hnone⟩
    | some zv =>
      -- the document is set on the newest exception, whichever that is
      obtain ⟨later',hlater⟩ := hlabels { x with
        properties := update x.properties (exceptionProperty "resultDocument") zv }
      exact ⟨later',commandException error,hlater,hclass,hnone⟩

theorem raised_unique {later later' : Chain} {x y : ExceptionObject}
    (h : later ++ x::eg = later' ++ y::eg) : x = y := by
  have htail := (List.append_inj' h rfl).2
  exact (List.cons.inj htail).1

/-- The raised exception has the labels of the reply, unless they are misplaced. -/
theorem ErrorOutside.raisesLabelled_iff
    (h : (E.raisedClass error).isRuntimeException = true) :
    E.RaisesLabelled error reply eg l ↔
      ¬ E.Misplaces error reply ∧ ToldApart (labelsOf reply) l := by
  by_cases hthrows : error.usesCommandException = true ∧
      reportsAll E.libbson E.userland reply = true
  · obtain ⟨above,y,hxy,hce,hnone⟩ := E.raises_below eg hthrows.1 hthrows.2
    constructor
    · rintro ⟨later,raised,hraised,-,hlabelled⟩
      have heq : raised = y := raised_unique (hraised.symm.trans hxy)
      have hnil := hnone.eq_nil (heq ▸ hlabelled.1)
      refine ⟨fun hmisplaces => hmisplaces.2.2 hnil,?_⟩
      exact (hlabelled.1.labelled_iff l).mp hlabelled
    · rintro ⟨hplaced,htold⟩
      have hnil : labelsOf reply = [] := by
        by_contra hne
        exact hplaced ⟨hthrows.1,hthrows.2,hne⟩
      refine ⟨above,y,hxy,hce,?_⟩
      rw [hnil] at htold ⊢
      exact (hnone.labelled_iff l).mpr htold
  · obtain ⟨y,hy,hce,hcarries⟩ := E.raises_newest eg hthrows
    have hlabels := hcarries h
    constructor
    · rintro ⟨later,raised,hraised,-,hlabelled⟩
      refine ⟨fun hmisplaces => hthrows ⟨hmisplaces.1,hmisplaces.2.1⟩,?_⟩
      exact (hlabelled.1.labelled_iff l).mp hlabelled
    · rintro ⟨-,htold⟩
      exact ⟨[],y,hy,hce,(hlabels.labelled_iff l).mpr htold⟩

theorem ErrorOutside.bulkWrite_newest (reply : Doc) (writeResult : Zval) (eg : Chain)
    (h : ¬ (error.domain = .command ∧ error.code = E.codes.commandInvalidArg)) :
    ∃ final : ExceptionObject, E.throwBulkWriteException error reply writeResult eg =
      final::(if error.domain ≠ .server ∧ error.domain ≠ .writeConcern then
        E.throwFromBsonErrorAndReply error (some reply) eg else eg) ∧
      final.ce = .bulkWrite ∧ final.Carries (labelsOf reply) := by
  have hlayered : ∀ (x : ExceptionObject) (previous : Chain), x.ce = .bulkWrite →
      x.Carries [] → ∃ final : ExceptionObject,
        addExceptionProp "writeResult" writeResult (addErrorLabels (some reply) (x::previous)) =
          final::previous ∧ final.ce = .bulkWrite ∧ final.Carries (labelsOf reply) := by
    intro x previous hx hnew
    obtain ⟨y,hy,hce,hcarries⟩ := addErrorLabels_carries reply x previous
    obtain ⟨z,hz,hzce,hzcarries⟩ :=
      (hcarries hnew).addProp exceptionProperty_errorLabels_ne.2 writeResult previous
    rw [hy]
    exact ⟨z,hz,hzce.trans (hce.trans hx),hzcarries⟩
  unfold ErrorOutside.throwBulkWriteException
  dsimp only
  rw [if_neg h]
  generalize (if error.domain ≠ .server ∧ error.domain ≠ .writeConcern then
    E.throwFromBsonErrorAndReply error (some reply) eg else eg) = previous
  cases previous with
  | nil => exact hlayered _ [] rfl (carries_new rfl _ _ _)
  | cons x previous => exact hlayered _ (x::previous) rfl (carries_new rfl _ _ _)

/-- The labels of a reply reach the exception raised for an error, and the BulkWriteException,
unless the conversion of the reply ends with another exception; `hasErrorLabel` knows them from
other strings up to a NUL. -/
theorem error_labels_reach_iff (error : BsonError) (reply : Doc) (writeResult : Zval) (eg : Chain)
    (l : Bytes) (h : (E.raisedClass error).isRuntimeException = true) :
    (E.RaisesLabelled error reply eg l ∧ E.BulkLabelled error reply writeResult eg l) ↔
      ¬ E.Misplaces error reply ∧ ToldApart (labelsOf reply) l := by
  rw [E.raisesLabelled_iff h]
  constructor
  · exact fun h' => h'.1
  · rintro ⟨hplaced,htold⟩
    refine ⟨⟨hplaced,htold⟩,fun hargument => ?_⟩
    obtain ⟨final,hfinal,hce,hcarries⟩ := E.bulkWrite_newest reply writeResult eg hargument
    exact ⟨final,_,hfinal,rfl,hce,(hcarries.labelled_iff l).mpr htold⟩

end

def ErrorOutside.plain : ErrorOutside where
  codes := ⟨11,58,22,13053,4,15⟩
  libbson := Libbson.ascii
  userland := Userland.keeping ClassEntry.person
  userlandClassName _ := ascii "Exception"

def BsonError.retryable : BsonError := ⟨.server,91,CString.lit "shutdown in progress"⟩

def labelledReply (rest : Doc) : Doc :=
  (CString.lit "errorLabels",
    .array [(CString.lit "0",.utf8 (ascii "TransientTransactionError"))])::rest

theorem labels_reach_retryable :
    ErrorOutside.plain.RaisesLabelled .retryable (labelledReply []) []
      (ascii "TransientTransactionError") :=
  ((error_labels_reach_iff (E:=ErrorOutside.plain) .retryable (labelledReply []) .null []
    (ascii "TransientTransactionError") (by decide)).mpr
      ⟨fun h => absurd h.2.1 (by decide),fun _ => by decide⟩).1

/-- An element of unknown type after the labels takes them away from the CommandException. -/
theorem not_labels_reach :
    ¬ ErrorOutside.plain.RaisesLabelled .retryable
      (labelledReply [(CString.lit "x",.unsupported 0x20)]) []
      (ascii "TransientTransactionError") := by
  rw [ErrorOutside.raisesLabelled_iff (by decide)]
  exact fun h => h.1 ⟨by decide,by decide,by decide⟩

end Phongo
