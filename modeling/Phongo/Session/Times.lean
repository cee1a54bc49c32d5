import Mathlib.Order.WithBot
import Phongo.Bson.Reencoding
import Phongo.Lib.Clock
import Phongo.Session.Transactions

/-! The operation times and cluster times of client sessions. An application reads the times of
one session and advances other sessions to them. -/
namespace Phongo
open OrderedTable Attempt

/-- libmongoc's functions on the times of a `mongoc_client_session_t`. A time is a timestamp with
an increment. -/
structure MongocTimes (S : Type) where
  getOperationTime : S → UInt32 × UInt32
  advanceOperationTime : S → UInt32 × UInt32 → S
  getClusterTime : S → Option Doc
  advanceClusterTime : S → Doc → S
  /-- after a reply to an operation, with the times in it -/
  handleReply : S → Option (UInt32 × UInt32) → Option Doc → S

/-- PHP's answers, with those of the application's `TimestampInterface` objects. -/
structure TimestampOutside where
  libbson : Libbson
  userland : Userland
  isTimestamp : Zval → Bool
  getTimestamp : Zval → Attempt Exception Zval
  getIncrement : Zval → Attempt Exception Zval
  /-- what `Z_LVAL` reads of a value that is not an int -/
  lval : Zval → Int64
  /-- for an argument that is not of the type of its parameter -/
  parameterError : Zval → Exception

/-- Times are ordered like numbers of 64 bits. -/
def timeNumber (time : UInt32 × UInt32) : ℕ := time.1.toNat * 4294967296 + time.2.toNat

def clusterTimeOf (d : Doc) : Option (UInt32 × UInt32) :=
  match find? d (CString.lit "clusterTime") with
  | some (.timestamp t i) => some (t,i)
  | _ => none

def clusterNumber (d : Option Doc) : WithBot ℕ :=
  match d.bind clusterTimeOf with
  | some time => (timeNumber time : ℕ)
  | none => ⊥

/-- libmongoc's functions as documented: a session is advanced to a time that is later than
its own, and no reply sets a time back. -/
structure MongocTimes.Lawful {S : Type} (M : MongocTimes S) : Prop where
  advanceOperationTime : ∀ s time, M.getOperationTime (M.advanceOperationTime s time) =
    if timeNumber (M.getOperationTime s) < timeNumber time then time else M.getOperationTime s
  clusterTime_advanceOperationTime : ∀ s time,
    M.getClusterTime (M.advanceOperationTime s time) = M.getClusterTime s
  advanceClusterTime : ∀ s d, M.getClusterTime (M.advanceClusterTime s d) =
    if clusterNumber (M.getClusterTime s) < clusterNumber (some d) then some d
    else M.getClusterTime s
  operationTime_advanceClusterTime : ∀ s d,
    M.getOperationTime (M.advanceClusterTime s d) = M.getOperationTime s
  operationTime_handleReply : ∀ s operationTime clusterTime,
    timeNumber (M.getOperationTime s) ≤
      timeNumber (M.getOperationTime (M.handleReply s operationTime clusterTime))
  clusterTime_handleReply : ∀ s operationTime clusterTime,
    clusterNumber (M.getClusterTime s) ≤
      clusterNumber (M.getClusterTime (M.handleReply s operationTime clusterTime))

inductive TimeCall
  /-- an operation in the session, with the times in the reply -/
  | operation (operationTime : Option (UInt32 × UInt32)) (clusterTime : Option Doc)
  | getOperationTime
  | advanceOperationTime (ztimestamp : Zval)
  | getClusterTime
  | advanceClusterTime (zclusterTime : Zval)
  | endSession

/-- A call on a Session object, with what is left of its client session, what it returned and
what it threw. -/
structure TimeEvent (S : Type) where
  session : ℕ
  call : TimeCall
  after : Option S
  returned : Zval
  exceptions : Pending

section
variable {S : Type} (E : TimestampOutside) (M : MongocTimes S)

/-- Whether an argument is an object of `TimestampInterface`. -/
def TimestampOutside.isTimestampInterface (z : Zval) : Bool :=
  match z with
  | .bson (.timestamp _ _) => true
  | .object _ _ _ _ => E.isTimestamp z
  | _ => false

/-- `zend_call_method_with_0_params` with "getTimestamp" -/
def TimestampOutside.callGetTimestamp (z : Zval) : Attempt Exception Zval :=
  match z with
  | .bson (.timestamp timestamp _) => pure (.long timestamp.toUInt64.toInt64)
  | z => E.getTimestamp z

/-- and with "getIncrement" -/
def TimestampOutside.callGetIncrement (z : Zval) : Attempt Exception Zval :=
  match z with
  | .bson (.timestamp _ increment) => pure (.long increment.toUInt64.toInt64)
  | z => E.getIncrement z

/-- `Z_LVAL`, as 32 bits. -/
def TimestampOutside.uint32 : Zval → UInt32
  | .long n => n.toUInt64.toUInt32
  | z => (E.lval z).toUInt64.toUInt32

/-- `php_phongo_session_get_timestamp_parts` -/
def TimestampOutside.getTimestampParts (z : Zval) : Attempt Exception (UInt32 × UInt32) := do
  let ztimestamp ← E.callGetTimestamp z
  Attempt.check
  let zincrement ← E.callGetIncrement z
  Attempt.check
  return (E.uint32 ztimestamp,E.uint32 zincrement)

/-- `Session::advanceOperationTime` -/
def TimestampOutside.advanceOperationTime (s : S) (z : Zval) : S × Pending :=
  if E.isTimestampInterface z then
    match E.getTimestampParts z [] with
    | (some time,eg) => (M.advanceOperationTime s time,eg)
    | (none,eg) => (s,eg)
  else (s,[E.parameterError z])

/-- `Session::getOperationTime` -/
def MongocTimes.operationTimeZval (s : S) : Zval :=
  let time := M.getOperationTime s
  if time.1 = 0 ∧ time.2 = 0 then .null else .bson (.timestamp time.1 time.2)

/-- `Session::getClusterTime` -/
def TimestampOutside.clusterTimeZval (s : S) : Zval × Pending :=
  match M.getClusterTime s with
  | none => (.null,[])
  | some d =>
    let r := bsonToZvalEx E.libbson E.userland (.read d true) BsonState.init []
    (if r.ok then r.state.zchild else .null,r.exceptions)

/-- `Session::advanceClusterTime` -/
def TimestampOutside.advanceClusterTime (s : S) (z : Zval) : S × Pending :=
  if z.isArrayOrObject then
    let r := zvalToBson E.libbson E.userland z .none []
    if r.2.2.isEmpty then (M.advanceClusterTime s r.1,[]) else (s,r.2.2)
  else (s,[E.parameterError z])

/-- A call on a Session object, whose client session may have been ended. -/
def TimestampOutside.timeCall : Option S → TimeCall → Option S × Zval × Pending
  | some s, .operation operationTime clusterTime =>
    (some (M.handleReply s operationTime clusterTime),.null,[])
  | some s, .getOperationTime => (some s,M.operationTimeZval s,[])
  | some s, .advanceOperationTime z =>
    let r := E.advanceOperationTime M s z
    (some r.1,.null,r.2)
  | some s, .getClusterTime => (some s,E.clusterTimeZval M s)
  | some s, .advanceClusterTime z =>
    let r := E.advanceClusterTime M s z
    (some r.1,.null,r.2)
  | none, .getOperationTime => (none,.null,[sessionEndedError "getOperationTime"])
  | none, .advanceOperationTime _ => (none,.null,[sessionEndedError "advanceOperationTime"])
  | none, .getClusterTime => (none,.null,[sessionEndedError "getClusterTime"])
  | none, .advanceClusterTime _ => (none,.null,[sessionEndedError "advanceClusterTime"])
  | none, .operation _ _ => (none,.null,[])
  | _, .endSession => (none,.null,[])

def TimestampOutside.timeStep (sessions : ℕ → Option S) (call : ℕ × TimeCall) :
    (ℕ → Option S) × TimeEvent S :=
  let r := E.timeCall M (sessions call.1) call.2
  (Function.update sessions call.1 r.1,⟨call.1,call.2,r.1,r.2.1,r.2.2⟩)

def TimestampOutside.timeLog (sessions : ℕ → Option S) (calls : List (ℕ × TimeCall)) :
    List (TimeEvent S) :=
  Clock.record (E.timeStep M) sessions calls

/-- The operation time of a session that was not ended, which comes after all others. -/
def MongocTimes.operationClock : Option S → WithTop ℕ
  | none => ⊤
  | some s => (timeNumber (M.getOperationTime s) : ℕ)

def MongocTimes.clusterClock : Option S → WithTop (WithBot ℕ)
  | none => ⊤
  | some s => (clusterNumber (M.getClusterTime s) : WithBot ℕ)

/-- A time that `getOperationTime()` returned, as a number. -/
def Zval.operationNumber : Zval → ℕ
  | .bson (.timestamp t i) => timeNumber (t,i)
  | _ => 0

/-- An operation time that `advanceOperationTime()` was given. -/
def HandsOperationTime (a b : TimeEvent S) : Prop :=
  a.call = .getOperationTime ∧ a.exceptions = [] ∧
    b.call = .advanceOperationTime a.returned ∧ b.exceptions = []

/-- A cluster time that `advanceClusterTime()` was given, a document without classes and with no
key twice. -/
def TimestampOutside.HandsClusterTime (a b : TimeEvent S) : Prop :=
  a.call = .getClusterTime ∧ a.exceptions = [] ∧
    (∀ s d, a.after = some s → M.getClusterTime s = some d →
      NoPclassAll E.userland d ∧ (keys d).Nodup) ∧
    b.call = .advanceClusterTime a.returned ∧ b.exceptions = []

end

def laterTime (time time' : UInt32 × UInt32) : UInt32 × UInt32 :=
  if timeNumber time < timeNumber time' then time' else time

def laterCluster (d d' : Option Doc) : Option Doc :=
  if clusterNumber d < clusterNumber d' then d' else d

theorem timeNumber_le_laterTime (time time' : UInt32 × UInt32) :
    timeNumber time ≤ timeNumber (laterTime time time') := by
  unfold laterTime
  split_ifs <;> omega

theorem clusterNumber_le_laterCluster (d d' : Option Doc) :
    clusterNumber d ≤ clusterNumber (laterCluster d d') := by
  unfold laterCluster
  split_ifs with h
  · exact le_of_lt h
  · exact le_rfl

/-- A libmongoc whose sessions are their two times. -/
def MongocTimes.plain : MongocTimes ((UInt32 × UInt32) × Option Doc) where
  getOperationTime s := s.1
  advanceOperationTime s time := (laterTime s.1 time,s.2)
  getClusterTime s := s.2
  advanceClusterTime s d := (s.1,laterCluster s.2 (some d))
  handleReply s operationTime clusterTime :=
    (laterTime s.1 (operationTime.getD s.1),laterCluster s.2 clusterTime)

theorem MongocTimes.advanceOperationTime_plain (s : (UInt32 × UInt32) × Option Doc)
    (time : UInt32 × UInt32) : plain.advanceOperationTime s time = (laterTime s.1 time,s.2) := rfl

theorem MongocTimes.handleReply_plain (s : (UInt32 × UInt32) × Option Doc)
    (operationTime : Option (UInt32 × UInt32)) (clusterTime : Option Doc) :
    plain.handleReply s operationTime clusterTime =
      (laterTime s.1 (operationTime.getD s.1),laterCluster s.2 clusterTime) := rfl

theorem MongocTimes.plain_lawful : plain.Lawful where
  advanceOperationTime s time := by
    have hget : ∀ s, plain.getOperationTime s = s.1 := fun _ => rfl
    rw [advanceOperationTime_plain,hget,hget,laterTime]
  clusterTime_advanceOperationTime s time := by
    have hget : ∀ s, plain.getClusterTime s = s.2 := fun _ => rfl
    rw [advanceOperationTime_plain,hget,hget]
  advanceClusterTime _ _ := if_congr Iff.rfl rfl rfl
  operationTime_advanceClusterTime _ _ := rfl
  operationTime_handleReply s operationTime clusterTime := by
    have hget : ∀ s, plain.getOperationTime s = s.1 := fun _ => rfl
    rw [handleReply_plain,hget,hget]
    exact timeNumber_le_laterTime s.1 (operationTime.getD s.1)
  clusterTime_handleReply s operationTime clusterTime := by
    have hget : ∀ s, plain.getClusterTime s = s.2 := fun _ => rfl
    rw [handleReply_plain,hget,hget]
    exact clusterNumber_le_laterCluster s.2 clusterTime

/-- An application without `TimestampInterface` objects of its own. -/
def TimestampOutside.plain : TimestampOutside :=
  ⟨.ascii,.keeping .person,fun _ => false,fun _ => pure .null,fun _ => pure .null,fun _ => 0,
    fun _ => .userland 0⟩

section
variable {S : Type} {E : TimestampOutside} {M : MongocTimes S}

theorem operationNumber_operationTimeZval (s : S) :
    (M.operationTimeZval s).operationNumber = timeNumber (M.getOperationTime s) := by
  unfold MongocTimes.operationTimeZval
  dsimp only
  split_ifs with h
  · simp [Zval.operationNumber,timeNumber,h]
  · rfl

/-- The parts of a Timestamp are read as they were stored. -/
theorem getTimestampParts_timestamp (t i : UInt32) :
    E.getTimestampParts (.bson (.timestamp t i)) [] = (some (t,i),[]) := by
  have ht : t.toUInt64.toInt64.toUInt64.toUInt32 = t := by simp
  have hi : i.toUInt64.toInt64.toUInt64.toUInt32 = i := by simp
  show (some (t.toUInt64.toInt64.toUInt64.toUInt32,i.toUInt64.toInt64.toUInt64.toUInt32),
    ([] : Pending)) = _
  rw [ht,hi]

theorem advanceOperationTime_cases (s : S) (z : Zval) :
    (E.advanceOperationTime M s z).1 = s ∨
      ∃ time, (E.advanceOperationTime M s z).1 = M.advanceOperationTime s time := by
  unfold TimestampOutside.advanceOperationTime
  split_ifs
  · rcases E.getTimestampParts z [] with ⟨_ | time,eg⟩
    · exact Or.inl rfl
    · exact Or.inr ⟨time,rfl⟩
  · exact Or.inl rfl

theorem advanceClusterTime_cases (s : S) (z : Zval) :
    (E.advanceClusterTime M s z).1 = s ∨
      ∃ d, (E.advanceClusterTime M s z).1 = M.advanceClusterTime s d := by
  unfold TimestampOutside.advanceClusterTime
  split_ifs
  · simp only
    split_ifs
    · exact Or.inr ⟨_,rfl⟩
    · exact Or.inl rfl
  · exact Or.inl rfl

namespace MongocTimes.Lawful
variable (hM : M.Lawful)
include hM

/-- A session that was advanced is neither behind where it was, nor behind the time given. -/
theorem operationTime_le (s : S) (time : UInt32 × UInt32) :
    timeNumber (M.getOperationTime s) ≤
        timeNumber (M.getOperationTime (M.advanceOperationTime s time)) ∧
      timeNumber time ≤ timeNumber (M.getOperationTime (M.advanceOperationTime s time)) := by
  rw [hM.advanceOperationTime]
  split_ifs <;> omega

theorem clusterTime_le (s : S) (d : Doc) :
    clusterNumber (M.getClusterTime s) ≤
        clusterNumber (M.getClusterTime (M.advanceClusterTime s d)) ∧
      clusterNumber (some d) ≤ clusterNumber (M.getClusterTime (M.advanceClusterTime s d)) := by
  rw [hM.advanceClusterTime]
  split_ifs with h
  · exact ⟨le_of_lt h,le_rfl⟩
  · exact ⟨le_rfl,not_lt.mp h⟩

theorem forward_advanceOperationTime (s : S) (time : UInt32 × UInt32) :
    M.operationClock (some s) ≤ M.operationClock (some (M.advanceOperationTime s time)) ∧
      M.clusterClock (some s) ≤ M.clusterClock (some (M.advanceOperationTime s time)) := by
  constructor
  · simpa [operationClock] using (hM.operationTime_le s time).1
  · simp [clusterClock,hM.clusterTime_advanceOperationTime]

theorem forward_advanceClusterTime (s : S) (d : Doc) :
    M.operationClock (some s) ≤ M.operationClock (some (M.advanceClusterTime s d)) ∧
      M.clusterClock (some s) ≤ M.clusterClock (some (M.advanceClusterTime s d)) := by
  constructor
  · simp [operationClock,hM.operationTime_advanceClusterTime]
  · simpa [clusterClock] using (hM.clusterTime_le s d).1

theorem forward_handleReply (s : S) (operationTime : Option (UInt32 × UInt32))
    (clusterTime : Option Doc) :
    M.operationClock (some s) ≤
        M.operationClock (some (M.handleReply s operationTime clusterTime)) ∧
      M.clusterClock (some s) ≤
        M.clusterClock (some (M.handleReply s operationTime clusterTime)) := by
  constructor
  · simpa [operationClock] using hM.operationTime_handleReply s operationTime clusterTime
  · simpa [clusterClock] using hM.clusterTime_handleReply s operationTime clusterTime

theorem forward_timeCall (s : Option S) (call : TimeCall) :
    M.operationClock s ≤ M.operationClock (E.timeCall M s call).1 ∧
      M.clusterClock s ≤ M.clusterClock (E.timeCall M s call).1 := by
  cases s with
  | none => cases call <;> exact ⟨le_rfl,le_rfl⟩
  | some s =>
    cases call with
    | operation operationTime clusterTime =>
      exact hM.forward_handleReply s operationTime clusterTime
    | advanceOperationTime z =>
      simp only [TimestampOutside.timeCall]
      rcases advanceOperationTime_cases (E:=E) (M:=M) s z with h | ⟨time,h⟩
      · rw [h]
        exact ⟨le_rfl,le_rfl⟩
      · rw [h]
        exact hM.forward_advanceOperationTime s time
    | advanceClusterTime z =>
      simp only [TimestampOutside.timeCall]
      rcases advanceClusterTime_cases (E:=E) (M:=M) s z with h | ⟨d,h⟩
      · rw [h]
        exact ⟨le_rfl,le_rfl⟩
      · rw [h]
        exact hM.forward_advanceClusterTime s d
    | endSession => exact ⟨le_top,le_top⟩
    | _ => exact ⟨le_rfl,le_rfl⟩

end MongocTimes.Lawful

theorem advances_of_forward {T : Type} [Preorder T] {clock : Option S → T}
    (hclock : ∀ s call, clock s ≤ clock (E.timeCall M s call).1) :
    Clock.Advances (E.timeStep M) (fun sessions i => clock (sessions i)) TimeEvent.session
      (fun e => clock e.after) := by
  constructor
  · intro sessions call i
    by_cases hi : i = call.1
    · subst hi
      simpa [TimestampOutside.timeStep] using hclock _ _
    · simp [TimestampOutside.timeStep,hi]
  · intro sessions call
    simp [TimestampOutside.timeStep]

/-- What `getOperationTime()` returned is the time of a session that goes on. -/
theorem timeStep_getOperationTime {sessions : ℕ → Option S} {call : ℕ × TimeCall}
    (hcall : call.2 = .getOperationTime) (h : (E.timeStep M sessions call).2.exceptions = []) :
    ∃ s, (E.timeStep M sessions call).2.after = some s ∧
      (E.timeStep M sessions call).2.returned = M.operationTimeZval s := by
  obtain ⟨i,_⟩ := call
  subst hcall
  cases hs : sessions i with
  | none => simp [TimestampOutside.timeStep,TimestampOutside.timeCall,hs] at h
  | some s => exact ⟨s,by simp [TimestampOutside.timeStep,TimestampOutside.timeCall,hs]⟩

theorem timeStep_advanceOperationTime (hM : M.Lawful) {sessions : ℕ → Option S}
    {call : ℕ × TimeCall} {t i : UInt32}
    (hcall : call.2 = .advanceOperationTime (.bson (.timestamp t i))) :
    ((timeNumber (t,i) : ℕ) : WithTop ℕ) ≤
      M.operationClock (E.timeStep M sessions call).2.after := by
  obtain ⟨j,_⟩ := call
  subst hcall
  cases hs : sessions j with
  | none => simp [TimestampOutside.timeStep,TimestampOutside.timeCall,hs,MongocTimes.operationClock]
  | some s =>
    have hadvance : (E.advanceOperationTime M s (.bson (.timestamp t i))).1 =
        M.advanceOperationTime s (t,i) := by
      unfold TimestampOutside.advanceOperationTime
      rw [getTimestampParts_timestamp]
      rfl
    have hle := (hM.operationTime_le s (t,i)).2
    simpa [TimestampOutside.timeStep,TimestampOutside.timeCall,hs,MongocTimes.operationClock,
      hadvance] using hle

/-- A session that was handed an operation time is not behind it. -/
theorem HandsOperationTime.clock_le (hM : M.Lawful) {sessions sessions' : ℕ → Option S}
    {call call' : ℕ × TimeCall}
    (h : HandsOperationTime (E.timeStep M sessions call).2 (E.timeStep M sessions' call').2) :
    M.operationClock (E.timeStep M sessions call).2.after ≤
      M.operationClock (E.timeStep M sessions' call').2.after := by
  obtain ⟨hget,hquiet,hadvance,hquiet'⟩ := h
  obtain ⟨s,hafter,hreturned⟩ := timeStep_getOperationTime hget hquiet
  rw [hreturned] at hadvance
  rw [hafter]
  by_cases hzero : M.operationTimeZval s = .null
  · have hnumber := operationNumber_operationTimeZval (M:=M) s
    rw [hzero] at hnumber
    simp [MongocTimes.operationClock,← hnumber,Zval.operationNumber]
  · unfold MongocTimes.operationTimeZval at hzero hadvance
    dsimp only at hzero hadvance
    split_ifs at hzero hadvance
    · exact absurd rfl hzero
    · exact timeStep_advanceOperationTime hM hadvance

theorem operationClock_of_read {sessions : ℕ → Option S} {calls : List (ℕ × TimeCall)}
    {e : TimeEvent S} (he : e ∈ E.timeLog M sessions calls) (hcall : e.call = .getOperationTime)
    (hquiet : e.exceptions = []) :
    M.operationClock e.after = (e.returned.operationNumber : ℕ) := by
  have hstep : ∀ sessions call, (E.timeStep M sessions call).2.call = .getOperationTime →
      (E.timeStep M sessions call).2.exceptions = [] →
      M.operationClock (E.timeStep M sessions call).2.after =
        ((E.timeStep M sessions call).2.returned.operationNumber : ℕ) := by
    intro sessions call hcall hquiet
    obtain ⟨s,hafter,hreturned⟩ := timeStep_getOperationTime hcall hquiet
    rw [hafter,hreturned,operationNumber_operationTimeZval]
    rfl
  exact Clock.forall_record (Q:=fun e : TimeEvent S => e.call = .getOperationTime →
    e.exceptions = [] → M.operationClock e.after = (e.returned.operationNumber : ℕ))
    hstep sessions calls e he hcall hquiet

/-- Whatever an application does with its sessions, an operation time that it reads is not before
one that was read in the same session earlier, or in another session whose times were handed on,
over any number of sessions, to this one. -/
theorem operationTimes_causal (hM : M.Lawful) (sessions : ℕ → Option S)
    (calls : List (ℕ × TimeCall)) {i j : ℕ} {a b : TimeEvent S}
    (ha : (E.timeLog M sessions calls)[i]? = some a)
    (hb : (E.timeLog M sessions calls)[j]? = some b)
    (hij : Clock.HappensBefore (fun a b => a.session = b.session ∨ HandsOperationTime a b)
      (E.timeLog M sessions calls) i j)
    (hgeta : a.call = .getOperationTime) (hquieta : a.exceptions = [])
    (hgetb : b.call = .getOperationTime) (hquietb : b.exceptions = []) :
    a.returned.operationNumber ≤ b.returned.operationNumber := by
  have hadvances := advances_of_forward (E:=E) (M:=M) fun s call => (hM.forward_timeCall s call).1
  have hle := hadvances.time_le (fun _ _ _ _ => HandsOperationTime.clock_le hM) hij ha hb
  rw [operationClock_of_read (List.mem_of_getElem? ha) hgeta hquieta,
    operationClock_of_read (List.mem_of_getElem? hb) hgetb hquietb] at hle
  exact WithTop.coe_le_coe.mp hle

theorem operationTimes_causal_handed :
    let log := TimestampOutside.plain.timeLog .plain (fun _ => some ((0,0),none))
      [(0,.operation (some (5,1)) none),(0,.getOperationTime),(1,.operation (some (3,9)) none),
        (1,.advanceOperationTime (.bson (.timestamp 5 1))),(1,.getOperationTime)]
    ∃ a b, log[1]? = some a ∧ log[4]? = some b ∧
      a.returned.operationNumber ≤ b.returned.operationNumber := by
  intro log
  have hlog : log = [⟨0,.operation (some (5,1)) none,some ((5,1),none),.null,[]⟩,
      ⟨0,.getOperationTime,some ((5,1),none),.bson (.timestamp 5 1),[]⟩,
      ⟨1,.operation (some (3,9)) none,some ((3,9),none),.null,[]⟩,
      ⟨1,.advanceOperationTime (.bson (.timestamp 5 1)),some ((5,1),none),.null,[]⟩,
      ⟨1,.getOperationTime,some ((5,1),none),.bson (.timestamp 5 1),[]⟩] := by
    simp [log,TimestampOutside.timeLog,Clock.record,TimestampOutside.timeStep,
      TimestampOutside.timeCall,MongocTimes.plain,laterTime,laterCluster,timeNumber,
      MongocTimes.operationTimeZval,TimestampOutside.advanceOperationTime,
      TimestampOutside.isTimestampInterface,getTimestampParts_timestamp]
  have hread : log[1]? =
      some ⟨0,.getOperationTime,some ((5,1),none),.bson (.timestamp 5 1),[]⟩ := by
    rw [hlog]; rfl
  have hhanded : log[3]? = some ⟨1,.advanceOperationTime (.bson (.timestamp 5 1)),
      some ((5,1),none),.null,[]⟩ := by
    rw [hlog]; rfl
  have hlast : log[4]? =
      some ⟨1,.getOperationTime,some ((5,1),none),.bson (.timestamp 5 1),[]⟩ := by
    rw [hlog]; rfl
  refine ⟨_,_,hread,hlast,operationTimes_causal MongocTimes.plain_lawful _ _ hread hlast
    (Relation.TransGen.tail (Relation.TransGen.single (b:=3) ?_) ?_) rfl rfl rfl rfl⟩
  · exact ⟨by decide,_,_,hread,hhanded,Or.inr ⟨rfl,rfl,rfl,rfl⟩⟩
  · exact ⟨by decide,_,_,hhanded,hlast,Or.inl rfl⟩

theorem find?_materialiseAll {L : Libbson} {U : Userland} {map : Typemap} {path : List CString}
    {key : CString} {t i : UInt32} (d : Doc) (eg : Pending)
    (h : find? d key = some (.timestamp t i)) :
    find? (materialiseAll L U map path eg d).1 key = some (.bson (.timestamp t i)) := by
  induction d generalizing eg with
  | nil => simp [find?] at h
  | cons f d ih =>
    rw [materialiseAll]
    by_cases hf : f.1 = key
    · simp only [find?,hf,if_true,Option.some.injEq] at h ⊢
      rw [h]
      rfl
    · simp only [find?,hf,if_false] at h ⊢
      exact ih _ h

theorem WrittenAs.find? {L : Libbson} {U : Userland} {zs : List (CString × Zval)} {ws : Doc}
    (h : WrittenAs L U zs ws) {key : CString} {z : Zval} (hz : OrderedTable.find? zs key = some z) :
    ∃ w, OrderedTable.find? ws key = some w ∧ Writes L U z w := by
  induction h with
  | nil => simp [OrderedTable.find?] at hz
  | @cons e f zs ws hf _ ih =>
    by_cases he : e.1 = key
    · simp only [OrderedTable.find?,he,if_true,Option.some.injEq] at hz
      exact ⟨f.2,by simp [OrderedTable.find?,← hf.1,he],hz ▸ hf.2⟩
    · simp only [OrderedTable.find?,he,if_false] at hz
      obtain ⟨w,hw,hwrites⟩ := ih hz
      exact ⟨w,by simp [OrderedTable.find?,← hf.1,he,hw],hwrites⟩

/-- The object that a cluster time is decoded as is encoded with the same time. -/
theorem clusterTime_kept {L : Libbson} {U : Userland} (hL : L.Lawful) {d : Doc}
    (ha : acceptsAll L d = true) (hclass : NoPclassAll U d) (hnodup : (keys d).Nodup) :
    let z := (bsonToZvalEx L U (.read d true) BsonState.init []).state.zchild
    z.isArrayOrObject = true ∧ (zvalToBson L U z .none []).2.2 = [] ∧
      clusterNumber (some d) ≤ clusterNumber (some (zvalToBson L U z .none []).1) := by
  obtain ⟨zs,ws,hzs,hall⟩ := (exported_spec hL false).2 d
    ((classesReturn_of_noPclass L U).2 d hclass) ha []
  have hself : updateAll [] zs = zs :=
    updateAll_self zs (by rwa [hall.written.keys_eq,hall.keys])
  have hz : (bsonToZvalEx L U (.read d true) BsonState.init []).state.zchild =
      .object .stdClass none (zs.map fun e => (Key.str e.1.bytes,e.2)) .null := by
    refine (bsonToZvalEx_fresh (U:=U) ha Typemap.default []).2.1.trans ?_
    unfold materialiseRoot
    rw [show materialiseAll L U .default [] [] d = (zs,[]) from hzs,pclassOf_eq_none hclass]
    have hconvert := convertToObject_ofFields zs
    rw [hself] at hconvert
    exact hconvert
  obtain ⟨hd,hencoder⟩ := closeFields_writes (hall.written.fields toStr_str) true
    (Encoder.init []) rfl rfl
  have hroot : (zvalToBson L U (.object .stdClass none
      (zs.map fun e => (Key.str e.1.bytes,e.2)) .null) .none []).1 = ws := hd
  intro z
  rw [show z = _ from hz]
  refine ⟨rfl,hencoder.exceptions,?_⟩
  rw [hroot]
  cases htime : find? d (CString.lit "clusterTime") with
  | none => simp [clusterNumber,clusterTimeOf,htime]
  | some v =>
    cases v with
    | timestamp t i =>
      have hfind : find? (materialiseAll L U (nativeMap false) [] [] d).1
          (CString.lit "clusterTime") = some (.bson (.timestamp t i)) :=
        find?_materialiseAll d [] htime
      rw [hzs] at hfind
      obtain ⟨w,hw,hwrites⟩ := hall.written.find? hfind
      have hdata : Writes L U (.bson (.timestamp t i)) (.timestamp t i) :=
        writes_data (z:=.bson (.timestamp t i)) trivial
      rw [hwrites.unique hdata] at hw
      simp [clusterNumber,clusterTimeOf,htime,hw]
    | _ => simp [clusterNumber,clusterTimeOf,htime]

/-- What `getClusterTime()` returned is the cluster time of a session that goes on. -/
theorem timeStep_getClusterTime {sessions : ℕ → Option S} {call : ℕ × TimeCall}
    (hcall : call.2 = .getClusterTime) (h : (E.timeStep M sessions call).2.exceptions = []) :
    ∃ s, (E.timeStep M sessions call).2.after = some s ∧
      E.clusterTimeZval M s = ((E.timeStep M sessions call).2.returned,[]) := by
  obtain ⟨i,_⟩ := call
  subst hcall
  cases hs : sessions i with
  | none => simp [TimestampOutside.timeStep,TimestampOutside.timeCall,hs] at h
  | some s =>
    refine ⟨s,by simp [TimestampOutside.timeStep,TimestampOutside.timeCall,hs],?_⟩
    simp only [TimestampOutside.timeStep,TimestampOutside.timeCall,hs] at h ⊢
    exact Prod.ext rfl h

theorem timeStep_advanceClusterTime (hM : M.Lawful) {sessions : ℕ → Option S}
    {call : ℕ × TimeCall} {z : Zval} (hcall : call.2 = .advanceClusterTime z)
    (harray : z.isArrayOrObject = true)
    (hquiet : (zvalToBson E.libbson E.userland z .none []).2.2 = []) :
    ((clusterNumber (some (zvalToBson E.libbson E.userland z .none []).1) : WithBot ℕ) :
      WithTop (WithBot ℕ)) ≤ M.clusterClock (E.timeStep M sessions call).2.after := by
  obtain ⟨j,_⟩ := call
  subst hcall
  cases hs : sessions j with
  | none => simp [TimestampOutside.timeStep,TimestampOutside.timeCall,hs,MongocTimes.clusterClock]
  | some s =>
    have hadvance : (E.advanceClusterTime M s z).1 =
        M.advanceClusterTime s (zvalToBson E.libbson E.userland z .none []).1 := by
      simp [TimestampOutside.advanceClusterTime,harray,hquiet]
    have hle := (hM.clusterTime_le s (zvalToBson E.libbson E.userland z .none []).1).2
    simpa [TimestampOutside.timeStep,TimestampOutside.timeCall,hs,MongocTimes.clusterClock,
      hadvance] using hle

/-- A cluster time that was read without an exception is one the decoder accepts. -/
theorem clusterTimeZval_quiet {s : S} {d : Doc} {z : Zval} (htime : M.getClusterTime s = some d)
    (h : E.clusterTimeZval M s = (z,[])) : acceptsAll E.libbson d = true ∧
      (bsonToZvalEx E.libbson E.userland (.read d true) BsonState.init []).state.zchild = z := by
  unfold TimestampOutside.clusterTimeZval at h
  simp only [htime] at h
  have ha : acceptsAll E.libbson d = true := by
    by_contra hn
    have hrejects := (bsonToZvalRoot_rejects (L:=E.libbson) (U:=E.userland) (d:=d)
      (by simpa using hn) true BsonState.init []).2.1
    exact hrejects (congrArg Prod.snd h)
  have hok : (bsonToZvalEx E.libbson E.userland (.read d true) BsonState.init []).ok = true :=
    (bsonToZvalEx_fresh ha Typemap.default []).1
  have hfst := congrArg Prod.fst h
  rw [if_pos hok] at hfst
  exact ⟨ha,hfst⟩

/-- A session that was handed a cluster time is not behind it. -/
theorem HandsClusterTime.clock_le (hM : M.Lawful) (hL : E.libbson.Lawful)
    {sessions sessions' : ℕ → Option S} {call call' : ℕ × TimeCall}
    (h : E.HandsClusterTime M (E.timeStep M sessions call).2 (E.timeStep M sessions' call').2) :
    M.clusterClock (E.timeStep M sessions call).2.after ≤
      M.clusterClock (E.timeStep M sessions' call').2.after := by
  obtain ⟨hget,hquiet,hdocument,hadvance,hquiet'⟩ := h
  obtain ⟨s,hafter,hreturned⟩ := timeStep_getClusterTime hget hquiet
  rw [hafter]
  cases htime : M.getClusterTime s with
  | none => simp [MongocTimes.clusterClock,htime,clusterNumber]
  | some d =>
    obtain ⟨hclass,hnodup⟩ := hdocument s d hafter htime
    obtain ⟨ha,hz⟩ := clusterTimeZval_quiet htime hreturned
    obtain ⟨harray,hencoded,hle⟩ := clusterTime_kept hL ha hclass hnodup
    rw [hz] at harray hencoded hle
    apply le_trans _ (timeStep_advanceClusterTime hM hadvance harray hencoded)
    simpa [MongocTimes.clusterClock,htime] using hle

/-- The same for cluster times: where a session's cluster time was read, and handed on over any
number of sessions, these sessions are not behind it. -/
theorem clusterTimes_causal (hM : M.Lawful) (hL : E.libbson.Lawful) (sessions : ℕ → Option S)
    (calls : List (ℕ × TimeCall)) {i j : ℕ} {a b : TimeEvent S} {s t : S}
    (ha : (E.timeLog M sessions calls)[i]? = some a)
    (hb : (E.timeLog M sessions calls)[j]? = some b)
    (hij : Clock.HappensBefore (fun a b => a.session = b.session ∨ E.HandsClusterTime M a b)
      (E.timeLog M sessions calls) i j)
    (hs : a.after = some s) (ht : b.after = some t) :
    clusterNumber (M.getClusterTime s) ≤ clusterNumber (M.getClusterTime t) := by
  have hadvances := advances_of_forward (E:=E) (M:=M) fun s call => (hM.forward_timeCall s call).2
  have hle := hadvances.time_le (fun _ _ _ _ => HandsClusterTime.clock_le hM hL) hij ha hb
  rw [hs,ht] at hle
  exact WithTop.coe_le_coe.mp hle

theorem clusterTimes_causal_handed :
    let d : Doc := [(.lit "clusterTime",.timestamp 5 1)]
    let z : Zval := .object .stdClass none
      [(.str (CString.lit "clusterTime").bytes,.bson (.timestamp 5 1))] .null
    let log := TimestampOutside.plain.timeLog .plain (fun _ => some ((0,0),none))
      [(0,.operation none (some d)),(0,.getClusterTime),(1,.advanceClusterTime z)]
    ∃ a b s t, log[1]? = some a ∧ log[2]? = some b ∧ a.after = some s ∧ b.after = some t ∧
      clusterNumber (MongocTimes.plain.getClusterTime s) ≤
        clusterNumber (MongocTimes.plain.getClusterTime t) := by
  intro d z log
  have hclock : clusterNumber none < clusterNumber (some d) := by decide
  have hdecode : TimestampOutside.plain.clusterTimeZval .plain ((0,0),some d) = (z,[]) := rfl
  have hencode : zvalToBson .ascii (.keeping .person) z .none [] = (d,none,[]) := rfl
  have hreply : MongocTimes.plain.handleReply ((0,0),none) none (some d) = ((0,0),some d) := by
    rw [MongocTimes.handleReply_plain]
    simp [laterTime,laterCluster,hclock]
  have hadvance : TimestampOutside.plain.advanceClusterTime .plain ((0,0),none) z =
      (((0,0),some d),[]) := by
    have harray : z.isArrayOrObject = true := rfl
    have hd : MongocTimes.plain.advanceClusterTime ((0,0),none) d = ((0,0),some d) :=
      congrArg (Prod.mk _) (if_pos hclock)
    unfold TimestampOutside.advanceClusterTime
    rw [if_pos harray]
    dsimp only [TimestampOutside.plain]
    rw [hencode,hd]
    rfl
  have hlog : log = [⟨0,.operation none (some d),some ((0,0),some d),.null,[]⟩,
      ⟨0,.getClusterTime,some ((0,0),some d),z,[]⟩,
      ⟨1,.advanceClusterTime z,some ((0,0),some d),.null,[]⟩] := by
    simp [log,TimestampOutside.timeLog,Clock.record,TimestampOutside.timeStep,
      TimestampOutside.timeCall,hdecode,hreply,hadvance]
  have hread : log[1]? = some ⟨0,.getClusterTime,some ((0,0),some d),z,[]⟩ := by
    rw [hlog]; rfl
  have hhanded : log[2]? = some ⟨1,.advanceClusterTime z,some ((0,0),some d),.null,[]⟩ := by
    rw [hlog]; rfl
  refine ⟨_,_,_,_,hread,hhanded,rfl,rfl,clusterTimes_causal MongocTimes.plain_lawful
    Libbson.ascii_lawful _ _ hread hhanded (Relation.TransGen.single ?_) rfl rfl⟩
  refine ⟨by decide,_,_,hread,hhanded,Or.inr ⟨rfl,rfl,fun s d hs hd => ?_,rfl,rfl⟩⟩
  cases hs
  cases hd
  exact ⟨⟨ignores_of_ne (by decide) _,trivial,trivial⟩,by decide⟩

end

end Phongo
