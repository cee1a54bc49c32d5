import Mathlib.Tactic.Common
import Phongo.Concern.Object
import Phongo.Manager.Options

/-! `WriteConcern.c`: write concerns, their initialisation and their export, where PHP integers
have 64 bits. -/
namespace Phongo

/-- libmongoc's functions on a `mongoc_write_concern_t`, and `bson_ascii_strtoll` in base 10.
`mongoc_write_concern_set_w` yields nothing where its assertion fails. -/
structure MongocWriteConcern (Wc : Type) where
  new : Wc
  setW : Wc → Int32 → Option Wc
  getW : Wc → Int32
  getWmajority : Wc → Bool
  setWtag : Wc → CString → Wc
  getWtag : Wc → Option CString
  setJournal : Wc → Bool → Wc
  journalIsSet : Wc → Bool
  getJournal : Wc → Bool
  setWtimeoutInt64 : Wc → Int64 → Wc
  getWtimeoutInt64 : Wc → Int64
  isValid : Wc → Bool
  isAcknowledged : Wc → Bool
  isDefault : Wc → Bool
  asciiStrtoll : AsciiStrtoll

/-- `MONGOC_WRITE_CONCERN_W_DEFAULT` -/
def wDefault : Int32 := -2

/-- The fields of a `mongoc_write_concern_t`. -/
structure WriteConcernFields extends WriteConcern where
  isDefault : Bool

/-- A `w` that asks for no acknowledgement. -/
def WriteConcern.Unacknowledged (wc : WriteConcern) : Prop :=
  wc.w = wUnacknowledged ∨ wc.w = wErrorsIgnored

instance (wc : WriteConcern) : Decidable wc.Unacknowledged :=
  inferInstanceAs (Decidable (_ ∨ _))

/-- libmongoc's functions as documented, over the fields of its struct. -/
structure MongocWriteConcern.Lawful {Wc : Type} (M : MongocWriteConcern Wc)
    (fields : Wc → WriteConcernFields) : Prop where
  new : fields M.new = ⟨⟨wDefault,none,none,0⟩,true⟩
  setW_of_lt : ∀ wc w, w < wMajority → M.setW wc w = none
  setW : ∀ wc w, wMajority ≤ w → ∃ wc', M.setW wc w = some wc' ∧
    (fields wc').toWriteConcern = (fields wc).toWriteConcern.setW w ∧
    ((fields wc').isDefault = true → w = wDefault ∧ (fields wc).isDefault = true)
  setWtag : ∀ wc wtag, fields (M.setWtag wc wtag) = ⟨(fields wc).toWriteConcern.setWtag wtag,false⟩
  setJournal : ∀ wc journal, fields (M.setJournal wc journal) =
    { fields wc with journal := some journal, isDefault := false }
  setWtimeout : ∀ wc wtimeout, 0 ≤ wtimeout → fields (M.setWtimeoutInt64 wc wtimeout) =
    { fields wc with wtimeout := wtimeout, isDefault := false }
  setWtimeout_of_neg : ∀ wc wtimeout, wtimeout < 0 → M.setWtimeoutInt64 wc wtimeout = wc
  getW : ∀ wc, M.getW wc = (fields wc).w
  getWmajority : ∀ wc, M.getWmajority wc = decide ((fields wc).w = wMajority)
  getWtag : ∀ wc, M.getWtag wc = if (fields wc).w = wTag then (fields wc).wtag else none
  journalIsSet : ∀ wc, M.journalIsSet wc = (fields wc).journal.isSome
  getJournal : ∀ wc, M.getJournal wc = decide ((fields wc).journal = some true)
  getWtimeout : ∀ wc, M.getWtimeoutInt64 wc = (fields wc).wtimeout
  isValid : ∀ wc, M.isValid wc = true ↔
    ¬ ((fields wc).journal = some true ∧ (fields wc).Unacknowledged) ∧ 0 ≤ (fields wc).wtimeout
  isAcknowledged : ∀ wc, M.isAcknowledged wc = true ↔
    ¬ (fields wc).Unacknowledged ∨ (fields wc).journal = some true
  isDefault : ∀ wc, M.isDefault wc = (fields wc).isDefault
  strtoll : M.asciiStrtoll.Exact

/-- libmongoc on the fields themselves, and numbers spelled as PHP spells them. -/
def MongocWriteConcern.plain : MongocWriteConcern WriteConcernFields where
  new := ⟨⟨wDefault,none,none,0⟩,true⟩
  setW wc w :=
    if w < wMajority then none
    else some ⟨wc.toWriteConcern.setW w,wc.isDefault && w = wDefault⟩
  getW wc := wc.w
  getWmajority wc := wc.w = wMajority
  setWtag wc wtag := ⟨wc.toWriteConcern.setWtag wtag,false⟩
  getWtag wc := if wc.w = wTag then wc.wtag else none
  setJournal wc journal := { wc with journal := some journal, isDefault := false }
  journalIsSet wc := wc.journal.isSome
  getJournal wc := wc.journal = some true
  setWtimeoutInt64 wc wtimeout :=
    if wtimeout < 0 then wc else { wc with wtimeout := wtimeout, isDefault := false }
  getWtimeoutInt64 wc := wc.wtimeout
  isValid wc := ¬ (wc.journal = some true ∧ wc.Unacknowledged) ∧ 0 ≤ wc.wtimeout
  isAcknowledged wc := ¬ wc.Unacknowledged ∨ wc.journal = some true
  isDefault wc := wc.isDefault
  asciiStrtoll s :=
    let n := Int64.ofInt (decimal s.bytes)
    if longToStr n = s.bytes then ⟨n,false,some s.bytes.length⟩ else ⟨0,true,some 0⟩

theorem MongocWriteConcern.plain_lawful : plain.Lawful id where
  new := rfl
  setW_of_lt wc w h := if_pos h
  setW wc w h := by
    refine ⟨_,if_neg (Int32.not_lt.mpr h),rfl,fun hd => ?_⟩
    simp only [id,Bool.and_eq_true,decide_eq_true_eq] at hd
    exact ⟨hd.2,hd.1⟩
  setWtag _ _ := rfl
  setJournal _ _ := rfl
  setWtimeout wc wtimeout h := if_neg (Int64.not_lt.mpr h)
  setWtimeout_of_neg wc wtimeout h := if_pos h
  getW _ := rfl
  getWmajority _ := rfl
  getWtag _ := rfl
  journalIsSet _ := rfl
  getJournal _ := rfl
  getWtimeout _ := rfl
  isValid _ := decide_eq_true_iff
  isAcknowledged _ := decide_eq_true_iff
  isDefault _ := rfl
  strtoll n := by
    have hz : (CString.ofBytes (longToStr n)).bytes = longToStr n :=
      CString.bytes_ofBytes_of_notMem _ (zero_notMem_longToStr n)
    simp [plain,hz,decimal_longToStr,Int64.ofInt_toInt]

namespace WriteConcernObject
variable {Wc : Type} (M : MongocWriteConcern Wc)

def className : Bytes := ascii "MongoDB\\Driver\\WriteConcern"

/-- `PHONGO_WRITE_CONCERN_W_MAJORITY` -/
def majority : Bytes := ascii "majority"

/-- What becomes of a value given for `w`. -/
inductive StoredW (Wc : Type)
  | stored (wc : Wc)
  | tooSmall
  | wrongType
  | aborted

def StoredW.ofOption : Option Wc → StoredW Wc
  | some wc => .stored wc
  | none => .aborted

/-- The branches on the type of `w`, but for their exceptions. -/
def storeW (wc : Wc) : Zval → StoredW Wc
  | .long w => if w < -3 then .tooSmall else .ofOption (M.setW wc w.toInt32)
  | .string w =>
    if cstr w = majority then .ofOption (M.setW wc wMajority)
    else .stored (M.setWtag wc (CString.ofBytes w))
  | _ => .wrongType

/-- How an initialisation ends early: with the process, at the label `failure`, or by a `return`
that leaves the handle as it is. -/
inductive InitExit (Wc : Type)
  | aborted
  | failure (e : Exception)
  | returned (e : Exception) (wc : Wc)

abbrev Init (Wc : Type) := Except (InitExit Wc)

def Init.result (eg : Pending) : Init Wc Wc → Option (Initialisation Wc)
  | .ok wc => some ⟨true,some wc,eg⟩
  | .error .aborted => none
  | .error (.failure e) => some ⟨false,none,e::eg⟩
  | .error (.returned e wc) => some ⟨false,some wc,e::eg⟩

/-- `w` asks for no acknowledgement. -/
def isUnacknowledged (wc : Wc) : Bool :=
  M.getW wc = wUnacknowledged || M.getW wc = wErrorsIgnored

def cannotEnableJournaling : Exception :=
  invalidArgument "Cannot enable journaling when using w = 0" []

def notValid : Exception := invalidArgument "Write concern is not valid" []

section InitFromHash

def initFailure (format : String) : Init Wc Wc :=
  .error (.failure (invalidArgument format [.bytes className]))

def initW (props : Props) (wc : Wc) : Init Wc Wc :=
  match props.findStr "w" with
  | none => .ok wc
  | some w =>
    match storeW M wc w with
    | .stored wc => .ok wc
    | .aborted => .error .aborted
    | .tooSmall => initFailure "%s initialization requires \"w\" integer field to be >= -3"
    | .wrongType => initFailure "%s initialization requires \"w\" field to be integer or string"

def initWtimeout (props : Props) (wc : Wc) : Init Wc Wc :=
  match props.findStr "wtimeout" with
  | none => .ok wc
  | some (.long wtimeout) =>
    if wtimeout < 0 then
      initFailure "%s initialization requires \"wtimeout\" integer field to be >= 0"
    else .ok (M.setWtimeoutInt64 wc wtimeout)
  | some (.string wtimeout) =>
    match parseInt64 M.asciiStrtoll wtimeout with
    | none => .error (.returned (invalidArgument
        "Error parsing \"%s\" as 64-bit value for %s initialization"
        [.bytes (cstr wtimeout),.bytes className]) wc)
    | some timeout => .ok (M.setWtimeoutInt64 wc timeout)
  | some _ => initFailure "%s initialization requires \"wtimeout\" field to be integer or string"

def initJ (props : Props) (wc : Wc) : Init Wc Wc :=
  match props.findStr "j" with
  | none => .ok wc
  | some (.bool j) =>
    if j && isUnacknowledged M wc then .error (.failure cannotEnableJournaling)
    else .ok (M.setJournal wc j)
  | some _ => initFailure "%s initialization requires \"j\" field to be boolean"

def initSteps (props : Props) : Init Wc Wc := do
  let wc ← initW M props M.new
  let wc ← initWtimeout M props wc
  let wc ← initJ M props wc
  if M.isValid wc then .ok wc else .error (.failure notValid)

/-- `php_phongo_writeconcern_init_from_hash`; nothing where the process aborts. -/
def initFromHash (props : Props) (eg : Pending) : Option (Initialisation Wc) :=
  Init.result eg (initSteps M props)

end InitFromHash

section Construct

/-- The arguments of the constructor after `w`: a timeout, and a journal after it. -/
abbrev Rest := Option (Int64 × Option Zval)

def constructW (w : Zval) : Init Wc Wc :=
  let wc := M.new
  match storeW M wc w with
  | .stored wc => .ok wc
  | .aborted => .error .aborted
  | .tooSmall => .error (.returned (invalidArgument "Expected w to be >= -3, %ld given"
      [.num (match w with | .long n => n.toInt | _ => 0)]) wc)
  | .wrongType => .error (.returned (invalidArgument
      "Expected w to be integer or string, %s given" [.bytes w.classOrTypeName]) wc)

def constructJournal (journal : Zval) (wc : Wc) : Init Wc Wc :=
  match journal with
  | .null => .ok wc
  | journal =>
    if journal.isTrue && isUnacknowledged M wc then .error (.returned cannotEnableJournaling wc)
    else .ok (M.setJournal wc journal.isTrue)

def constructWtimeout (wtimeout : Int64) (wc : Wc) : Init Wc Wc :=
  if wtimeout < 0 then
    .error (.returned (invalidArgument "Expected wtimeout to be >= 0, %ld given"
      [.num wtimeout.toInt]) wc)
  else .ok (M.setWtimeoutInt64 wc wtimeout)

/-- The `switch` on the number of arguments. -/
def constructRest (rest : Rest) (wc : Wc) : Init Wc Wc :=
  match rest with
  | none => .ok wc
  | some (wtimeout,journal) => do
    let wc ← journal.elim (.ok wc) (constructJournal M · wc)
    constructWtimeout M wtimeout wc

def constructSteps (w : Zval) (rest : Rest) : Init Wc Wc := do
  let wc ← constructW M w
  let wc ← constructRest M rest wc
  if M.isValid wc then .ok wc else .error (.returned notValid wc)

/-- `WriteConcern::__construct` -/
def construct (w : Zval) (rest : Rest) (eg : Pending) : Option (Initialisation Wc) :=
  Init.result eg (constructSteps M w rest)

end Construct

section Getters

/-- `WriteConcern::getW`, without a value for the default. -/
def valueOfW (wc : Wc) : Option Zval :=
  match M.getWtag wc with
  | some wtag => some (.string wtag.bytes)
  | none =>
    if M.getWmajority wc then some (.string majority)
    else if M.getW wc ≠ wDefault then some (.long (M.getW wc).toInt64)
    else none

def getW (wc : Wc) : Zval := (valueOfW M wc).getD .null

/-- `WriteConcern::getJournal` -/
def getJournal (wc : Wc) : Option Bool :=
  if M.journalIsSet wc then some (M.getJournal wc) else none

end Getters

section Export

/-- A timeout that does not fit an `int32_t` travels as a string. -/
def portable (wtimeout : Int64) : Zval :=
  if wtimeout > 2147483647 ∨ wtimeout < -2147483648 then .string (longToStr wtimeout)
  else .long wtimeout

/-- The properties of a write concern; `form` gives the timeout its form. -/
def properties (wc : Wc) (form : Int64 → Zval) : Props :=
  ((valueOfW M wc).map (property "w")).toList ++
    ((getJournal M wc).map fun j => property "j" (.bool j)).toList ++
    (if M.getWtimeoutInt64 wc ≠ 0 then [property "wtimeout" (form (M.getWtimeoutInt64 wc))] else [])

/-- `php_phongo_writeconcern_get_properties_hash`, but for its BSON form. -/
def getPropertiesHash (o : ConcernObject Wc) (isTemp isSerialize : Bool) :
    Props × ConcernObject Wc :=
  o.fill isTemp (o.handle.elim []
    fun wc => properties M wc (if isSerialize then portable else .long))

/-- `WriteConcern::serialize` -/
def serialize (F : SerialFormat) : Option Wc → Option Bytes
  | none => none
  | some wc => some (serializeProps F (properties M wc portable))

/-- `WriteConcern::unserialize` -/
def unserialize (F : SerialFormat) (serialized : Bytes) (eg : Pending) :
    Option (Initialisation Wc) :=
  unserializeMethod F className (initFromHash M) serialized eg

end Export

end WriteConcernObject
end Phongo
