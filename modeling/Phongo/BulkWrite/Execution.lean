import Mathlib.Tactic.Common
import Phongo.BulkWrite.Builder
import Phongo.Lib.Run

/-! Execution of a BulkWrite: `phongo_execute_bulk_write` and the two methods that call it.
While libmongoc executes the bulk, command subscribers run code of the application, which may
try to execute the same BulkWrite; an attempt is therefore two steps, before and after. -/
namespace Phongo
open Transition

/-- A Session object with the client session it still has. -/
structure SessionObject where
  object : ℕ
  clientSession : Option ℕ

/-- A value among the options of an execute method. -/
inductive OptionValue
  | session (s : SessionObject)
  | writeConcern (w : WriteConcern)
  | other (classOrTypeName : Bytes)

def sessionClassName : Bytes := ascii "MongoDB\\Driver\\Session"

def writeConcernClassName : Bytes := ascii "MongoDB\\Driver\\WriteConcern"

def OptionValue.classOrTypeName : OptionValue → Bytes
  | .session _ => sessionClassName
  | .writeConcern _ => writeConcernClassName
  | .other name => name

/-- The `options` argument: none, an array, or any other value. -/
inductive ExecuteOptions
  | missing
  | array (session writeConcern : Option OptionValue)
  | value (v : OptionValue)

/-- `php_phongo_prep_legacy_option` for "writeConcern" -/
def ExecuteOptions.prepLegacyOption : ExecuteOptions → ExecuteOptions
  | .value v => .array none (some v)
  | options => options

/-- The functions of libmongoc that an execution asks. -/
structure MongocClients where
  /-- `mongoc_client_session_get_client` -/
  sessionGetClient : Option ℕ → ℕ
  /-- `mongoc_client_get_write_concern` -/
  clientWriteConcern : ℕ → WriteConcern
  /-- `mongoc_write_concern_is_acknowledged` -/
  isAcknowledged : WriteConcern → Bool

/-- The object through which a BulkWrite is executed: a Manager selects a server first. -/
inductive Executor
  | manager (selectServer : Throws UInt32)
  | server (serverId : UInt32)

/-- A call of `executeBulkWrite()`. -/
structure ExecuteCall where
  executor : Executor
  client : ℕ
  ns : CString
  options : ExecuteOptions

section
variable (M : MongocClients)

def expectedArray (v : OptionValue) : Exception :=
  invalidArgument "Expected options to be array, %s given" [.bytes v.classOrTypeName]

def expectedOption (option : String) (className : Bytes) (v : OptionValue) : Exception :=
  invalidArgument "Expected \"%s\" option to be %s, %s given"
    [.bytes (ascii option),.bytes className,.bytes v.classOrTypeName]

def unacknowledgedSession : Exception :=
  invalidArgument "Cannot combine \"session\" option with an unacknowledged write concern" []

/-- `phongo_parse_session` without a document to append to. -/
def parseSession (options : ExecuteOptions) (client : ℕ) : Throws (Option SessionObject) :=
  match options with
  | .missing => .ok none
  | .value v => .error (expectedArray v)
  | .array none _ => .ok none
  | .array (some (.session s)) _ =>
    if client ≠ M.sessionGetClient s.clientSession then
      .error (invalidArgument "Cannot use Session started from a different Manager" [])
    else .ok (some s)
  | .array (some v) _ => .error (expectedOption "session" sessionClassName v)

/-- `phongo_parse_write_concern` without a document to append to. -/
def parseWriteConcern : ExecuteOptions → Throws (Option WriteConcern)
  | .missing => .ok none
  | .value v => .error (expectedArray v)
  | .array _ none => .ok none
  | .array _ (some (.writeConcern w)) => .ok (some w)
  | .array _ (some v) => .error (expectedOption "writeConcern" writeConcernClassName v)

def BulkWrite.configure (b : BulkWrite) (database collection : CString) (client : ℕ)
    (serverId : UInt32) (session : Option SessionObject) (writeConcern : Option WriteConcern) :
    BulkWrite :=
  { b with
    session := (session.map SessionObject.object).or b.session
    bulk := { b.bulk with
      database := some database
      collection := some collection
      client := some client
      hint := serverId
      clientSession := match session with
        | some s => s.clientSession
        | none => b.bulk.clientSession
      writeConcern := writeConcern.or b.bulk.writeConcern } }

/-- `phongo_execute_bulk_write` up to the call of `mongoc_bulk_operation_execute`, with the
exception where it does not come to that call. -/
def prepareBulkWrite (call : ExecuteCall) (options : ExecuteOptions) (serverId : UInt32)
    (b : BulkWrite) : BulkWrite × Option Exception :=
  if b.executed then
    (b,some (invalidArgument ("BulkWrite objects may only be executed once and this instance " ++
      "has already been executed") []))
  else
    match splitNamespace call.ns with
    | none =>
      (b,some (invalidArgument "%s: %s"
        [.bytes (ascii "Invalid namespace provided"),.bytes call.ns.bytes]))
    | some (database,collection) =>
      let b := { b with database := some database, collection := some collection }
      match parseSession M options call.client with
      | .error e => (b,some e)
      | .ok session =>
        match parseWriteConcern options with
        | .error e => (b,some e)
        | .ok writeConcern =>
          if session.isSome ∧
              ¬ M.isAcknowledged (writeConcern.getD (M.clientWriteConcern call.client)) then
            (b,some unacknowledgedSession)
          else (b.configure database collection call.client serverId session writeConcern,none)

/-- What `Manager::executeBulkWrite` and `Server::executeBulkWrite` do first. -/
def ExecuteCall.selectServer (call : ExecuteCall) : Throws UInt32 :=
  match call.executor with
  | .manager selectServer => do
    let _ ← parseSession M call.options.prepLegacyOption call.client
    selectServer
  | .server serverId => .ok serverId

/-- The methods up to the call of `mongoc_bulk_operation_execute`. -/
def executeBulkWrite (call : ExecuteCall) (b : BulkWrite) : BulkWrite × Option Exception :=
  match call.selectServer M with
  | .error e => (b,some e)
  | .ok serverId => prepareBulkWrite M call call.options.prepLegacyOption serverId b

/-- A BulkWrite with what libmongoc was given to execute, and how many executions still run. -/
structure BulkRun where
  write : BulkWrite
  executions : List MongocBulk
  running : ℕ

inductive BulkEvent
  | attempt (call : ExecuteCall)
  /-- `mongoc_bulk_operation_execute` returns -/
  | returned

/-- An attempt, which libmongoc sees if it does not throw before. -/
def BulkRun.attempt (r : BulkRun) (call : ExecuteCall) : BulkRun :=
  match executeBulkWrite M call r.write with
  | (b,some _) => { r with write := b }
  | (b,none) => ⟨b,r.executions ++ [b.bulk],r.running + 1⟩

def BulkRun.Step (r : BulkRun) : BulkEvent → BulkRun → Prop
  | .attempt call, r' => r' = r.attempt M call
  | .returned, r' =>
    0 < r.running ∧
      r' = { r with write := { r.write with executed := true }, running := r.running - 1 }

/-- An attempt that throws before the BulkWrite is written to. -/
inductive RefusedEarly (call : ExecuteCall) (b : BulkWrite) : Prop
  | selection (e : Exception) (h : call.selectServer M = .error e)
  | executed (h : b.executed = true)
  | ns (h : splitNamespace call.ns = none)

/-- An attempt that throws when the namespace is stored. -/
inductive RefusedLate (call : ExecuteCall) : Prop
  | session (e : Exception)
    (h : parseSession M call.options.prepLegacyOption call.client = .error e)
  | writeConcern (e : Exception) (h : parseWriteConcern call.options.prepLegacyOption = .error e)
  | unacknowledged (s : SessionObject) (w : Option WriteConcern)
    (hs : parseSession M call.options.prepLegacyOption call.client = .ok (some s))
    (hw : parseWriteConcern call.options.prepLegacyOption = .ok w)
    (h : M.isAcknowledged (w.getD (M.clientWriteConcern call.client)) = false)

def Renames (call : ExecuteCall) (b : BulkWrite) : Prop :=
  ∃ names, splitNamespace call.ns = some names ∧
    (b.database ≠ some names.1 ∨ b.collection ≠ some names.2)

/-- The attempt ends before libmongoc sees it. -/
def ThrowsBefore (call : ExecuteCall) (b : BulkWrite) : Prop := (executeBulkWrite M call b).2.isSome

end

namespace BulkWrite

/-- The namespace of an attempt, which is stored before the options are looked at. -/
def named (b : BulkWrite) (names : CString × CString) : BulkWrite :=
  { b with database := some names.1, collection := some names.2 }

theorem named_eq_iff (b : BulkWrite) (names : CString × CString) :
    b.named names = b ↔ b.database = some names.1 ∧ b.collection = some names.2 := by
  constructor
  · intro h
    exact ⟨congrArg BulkWrite.database h.symm,congrArg BulkWrite.collection h.symm⟩
  · rintro ⟨hdatabase,hcollection⟩
    rw [named,← hdatabase,← hcollection]

end BulkWrite

section
variable {M : MongocClients} {call : ExecuteCall} {b : BulkWrite}

/-- An attempt that comes through, with what it found. -/
structure Comes (M : MongocClients) (call : ExecuteCall) (b : BulkWrite)
    (names : CString × CString) (serverId : UInt32) (session : Option SessionObject)
    (writeConcern : Option WriteConcern) : Prop where
  result : ∀ b' : BulkWrite, b'.executed = false → executeBulkWrite M call b' =
    ((b'.named names).configure names.1 names.2 call.client serverId session writeConcern,none)
  executed : b.executed = false
  early : ¬ RefusedEarly M call b
  late : ¬ RefusedLate M call

theorem executeBulkWrite_named {serverId : UInt32} {names : CString × CString}
    (hserver : call.selectServer M = .ok serverId) (hexecuted : b.executed = false)
    (hns : splitNamespace call.ns = some names) :
    executeBulkWrite M call b =
      match parseSession M call.options.prepLegacyOption call.client,
        parseWriteConcern call.options.prepLegacyOption with
      | .error e,_ => (b.named names,some e)
      | .ok _,.error e => (b.named names,some e)
      | .ok session,.ok writeConcern =>
        if session.isSome ∧
            ¬ M.isAcknowledged (writeConcern.getD (M.clientWriteConcern call.client)) then
          (b.named names,some unacknowledgedSession)
        else ((b.named names).configure names.1 names.2 call.client serverId session writeConcern,
          none) := by
  simp only [executeBulkWrite,hserver]
  unfold prepareBulkWrite
  rw [if_neg (by simp [hexecuted]),hns]
  cases parseSession M call.options.prepLegacyOption call.client with
  | error e => rfl
  | ok session => cases parseWriteConcern call.options.prepLegacyOption <;> rfl

/-- How an attempt ends: refused at once, refused with its namespace stored, or not at all. -/
theorem executeBulkWrite_cases (M : MongocClients) (call : ExecuteCall) (b : BulkWrite) :
    (RefusedEarly M call b ∧ ∃ e, executeBulkWrite M call b = (b,some e)) ∨
    (¬ RefusedEarly M call b ∧ RefusedLate M call ∧ ∃ names e,
      splitNamespace call.ns = some names ∧ executeBulkWrite M call b = (b.named names,some e)) ∨
    (∃ names serverId session writeConcern,
      Comes M call b names serverId session writeConcern) := by
  cases hserver : call.selectServer M with
  | error e => exact Or.inl ⟨.selection e hserver,e,by simp [executeBulkWrite,hserver]⟩
  | ok serverId =>
    cases hexecuted : b.executed with
    | true =>
      refine Or.inl ⟨.executed hexecuted,?_⟩
      simp [executeBulkWrite,hserver,prepareBulkWrite,hexecuted]
    | false =>
      cases hns : splitNamespace call.ns with
      | none =>
        refine Or.inl ⟨.ns hns,?_⟩
        simp [executeBulkWrite,hserver,prepareBulkWrite,hexecuted,hns]
      | some names =>
        have hgo := fun (b' : BulkWrite) (hb' : b'.executed = false) =>
          executeBulkWrite_named hserver hb' hns
        have hearly : ¬ RefusedEarly M call b := by
          rintro (⟨e,h⟩ | h | h)
          · rw [hserver] at h; cases h
          · rw [hexecuted] at h; cases h
          · rw [hns] at h; cases h
        cases hsession : parseSession M call.options.prepLegacyOption call.client with
        | error e =>
          refine Or.inr (Or.inl ⟨hearly,.session e hsession,names,e,rfl,?_⟩)
          rw [hgo b hexecuted,hsession]
        | ok session =>
          cases hwc : parseWriteConcern call.options.prepLegacyOption with
          | error e =>
            refine Or.inr (Or.inl ⟨hearly,.writeConcern e hwc,names,e,rfl,?_⟩)
            rw [hgo b hexecuted,hsession,hwc]
          | ok writeConcern =>
            simp only [hsession,hwc] at hgo
            by_cases hack : session.isSome ∧
                ¬ M.isAcknowledged (writeConcern.getD (M.clientWriteConcern call.client))
            · obtain ⟨s,rfl⟩ := Option.isSome_iff_exists.mp hack.1
              refine Or.inr (Or.inl ⟨hearly,.unacknowledged s writeConcern hsession hwc
                (by simpa using hack.2),names,unacknowledgedSession,rfl,?_⟩)
              rw [hgo b hexecuted,if_pos hack]
            · refine Or.inr (Or.inr ⟨names,serverId,session,writeConcern,fun b' hb' => ?_,hexecuted,
                hearly,?_⟩)
              · rw [hgo b' hb',if_neg hack]
              · rintro (⟨e,h⟩ | ⟨e,h⟩ | ⟨s,w,hs,hw,h⟩)
                · rw [hsession] at h; cases h
                · rw [hwc] at h; cases h
                · rw [hsession] at hs
                  rw [hwc] at hw
                  cases hs
                  cases hw
                  exact hack ⟨rfl,by simp [h]⟩

theorem Comes.not_throws {names : CString × CString} {serverId : UInt32}
    {session : Option SessionObject} {writeConcern : Option WriteConcern}
    (h : Comes M call b names serverId session writeConcern) : ¬ ThrowsBefore M call b := by
  rw [ThrowsBefore,h.result b h.executed]
  simp

theorem throwsBefore_iff : ThrowsBefore M call b ↔ RefusedEarly M call b ∨ RefusedLate M call := by
  rcases executeBulkWrite_cases M call b with ⟨hearly,e,he⟩ | ⟨-,hlate,names,e,-,he⟩ |
    ⟨names,serverId,session,writeConcern,hcomes⟩
  · exact iff_of_true (by simp [ThrowsBefore,he]) (Or.inl hearly)
  · exact iff_of_true (by simp [ThrowsBefore,he]) (Or.inr hlate)
  · exact iff_of_false hcomes.not_throws fun h => h.elim hcomes.early hcomes.late

/-- A refused attempt leaves the BulkWrite alone unless its namespace was stored and is new. -/
theorem unchanged_iff (h : ThrowsBefore M call b) :
    (executeBulkWrite M call b).1 = b ↔ RefusedEarly M call b ∨ ¬ Renames call b := by
  rcases executeBulkWrite_cases M call b with ⟨hearly,e,he⟩ | ⟨hearly,-,names,e,hns,he⟩ |
    ⟨names,serverId,session,writeConcern,hcomes⟩
  · rw [he]
    exact iff_of_true rfl (Or.inl hearly)
  · have hrenames : Renames call b ↔ b.database ≠ some names.1 ∨ b.collection ≠ some names.2 := by
      simp [Renames,hns]
    rw [he]
    show b.named names = b ↔ _
    rw [b.named_eq_iff,or_iff_right hearly,hrenames,not_or,not_not,not_not]
  · exact absurd h hcomes.not_throws

/-- A later attempt that comes through does not notice a refused one. -/
theorem executeBulkWrite_of_throws {call' : ExecuteCall} (h : ThrowsBefore M call b)
    (h' : ¬ ThrowsBefore M call' b) :
    executeBulkWrite M call' (executeBulkWrite M call b).1 = executeBulkWrite M call' b := by
  rcases executeBulkWrite_cases M call b with ⟨-,e,he⟩ | ⟨-,-,names,e,-,he⟩ |
    ⟨names,serverId,session,writeConcern,hcomes⟩
  · rw [he]
  · rw [he]
    rcases executeBulkWrite_cases M call' b with ⟨hearly,-⟩ | ⟨-,hlate,-⟩ |
      ⟨names',serverId,session,writeConcern,hcomes⟩
    · exact absurd (throwsBefore_iff.mpr (Or.inl hearly)) h'
    · exact absurd (throwsBefore_iff.mpr (Or.inr hlate)) h'
    · rw [hcomes.result b hcomes.executed]
      exact hcomes.result (b.named names) hcomes.executed
  · exact absurd h hcomes.not_throws

end

namespace BulkRun
variable {M : MongocClients} {r : BulkRun}

/-- No execution is attempted with success while one runs, and no attempt is refused when a new
namespace has been stored. -/
def Orderly (M : MongocClients) (r : BulkRun) : BulkEvent → Prop
  | .attempt call =>
    (r.running = 0 ∨ RefusedEarly M call r.write ∨ RefusedLate M call) ∧
      (RefusedLate M call → RefusedEarly M call r.write ∨ ¬ Renames call r.write)
  | .returned => True

def Effective (M : MongocClients) (r : BulkRun) : BulkEvent → Prop
  | .attempt call => ¬ ThrowsBefore M call r.write
  | .returned => True

/-- The invariant: what has been executed is marked or still runs. -/
structure SingleShot (r : BulkRun) : Prop where
  once : r.executions.length ≤ 1
  marked : r.executions ≠ [] → r.write.executed = true ∨ 0 < r.running

theorem attempt_of_throws {call : ExecuteCall} (h : ThrowsBefore M call r.write) :
    r.attempt M call = { r with write := (executeBulkWrite M call r.write).1 } := by
  obtain ⟨e,he⟩ := Option.isSome_iff_exists.mp h
  rcases hr : executeBulkWrite M call r.write with ⟨b,e'⟩
  rw [hr] at he
  subst he
  simp only [attempt,hr]

theorem attempt_of_orderly {call : ExecuteCall} (horderly : r.Orderly M (.attempt call))
    (h : ThrowsBefore M call r.write) : r.attempt M call = r := by
  rw [attempt_of_throws h,(unchanged_iff h).mpr]
  rcases throwsBefore_iff.mp h with hearly | hlate
  · exact Or.inl hearly
  · exact horderly.2 hlate

theorem SingleShot.step {r' : BulkRun} {event : BulkEvent} (h : r.SingleShot)
    (horderly : r.Orderly M event) (hstep : BulkRun.Step M r event r') : r'.SingleShot := by
  cases event with
  | returned =>
    obtain ⟨-,rfl⟩ := hstep
    exact ⟨h.once,fun _ => Or.inl rfl⟩
  | attempt call =>
    obtain rfl := hstep
    by_cases hthrows : ThrowsBefore M call r.write
    · rw [attempt_of_orderly horderly hthrows]
      exact h
    · rcases executeBulkWrite_cases M call r.write with ⟨hearly,-⟩ | ⟨-,hlate,-⟩ |
        ⟨names,serverId,session,writeConcern,hcomes⟩
      · exact absurd (throwsBefore_iff.mpr (Or.inl hearly)) hthrows
      · exact absurd (throwsBefore_iff.mpr (Or.inr hlate)) hthrows
      · have hidle : r.running = 0 :=
          horderly.1.resolve_right fun hr => hr.elim hcomes.early hcomes.late
        have hnone : r.executions = [] := by
          by_contra hne
          have hmarked := h.marked hne
          rw [hcomes.executed,hidle] at hmarked
          simp at hmarked
        unfold attempt
        rw [hcomes.result _ hcomes.executed]
        exact ⟨by simp [hnone],fun _ => Or.inr (Nat.succ_pos _)⟩

/-- In an orderly run of attempts libmongoc executes the BulkWrite at most once; a refused attempt
changes nothing exactly if it is refused early or its namespace is not new, it makes no difference
to a later one that comes through, and all refused attempts
might be left out. -/
theorem singleShot_of_reaches (M : MongocClients) {b : BulkWrite}
    (h : Reaches (BulkRun.Step M) (BulkRun.Orderly M) ⟨b,[],0⟩ r) :
    r.executions.length ≤ 1 ∧
    (∀ call, ThrowsBefore M call r.write → ((executeBulkWrite M call r.write).1 = r.write ↔
      RefusedEarly M call r.write ∨ ¬ Renames call r.write)) ∧
    (∀ call call', ThrowsBefore M call r.write → ¬ ThrowsBefore M call' r.write →
      executeBulkWrite M call' (executeBulkWrite M call r.write).1 =
        executeBulkWrite M call' r.write) ∧
    Reaches (BulkRun.Step M) (BulkRun.Effective M) ⟨b,[],0⟩ r := by
  have hsingle : r.SingleShot := h.invariant (I:=BulkRun.SingleShot)
    (fun r event r' hr horderly hstep => hr.step horderly hstep)
    ⟨Nat.zero_le _,fun hne => absurd rfl hne⟩
  refine ⟨hsingle.once,fun call => unchanged_iff,fun call call' => executeBulkWrite_of_throws,?_⟩
  refine h.invariant (I:=fun r => Reaches (BulkRun.Step M) (BulkRun.Effective M) ⟨b,[],0⟩ r)
    (fun r event r' hr horderly hstep => ?_) Reaches.refl
  cases event with
  | returned => exact hr.tail .returned trivial hstep
  | attempt call =>
    by_cases hthrows : ThrowsBefore M call r.write
    · rw [hstep,attempt_of_orderly horderly hthrows]
      exact hr
    · exact hr.tail (.attempt call) hthrows hstep

/-- A refused namespace, then an execution. -/
theorem singleShot_of_reaches_single :
    let M : MongocClients := ⟨fun _ => 0,fun _ => ⟨1,none,none,0⟩,fun w => w.w ≠ 0⟩
    let bad : ExecuteCall := ⟨.server 1,0,CString.lit "db",.missing⟩
    let good : ExecuteCall := ⟨.server 1,0,CString.lit "db.collection",.missing⟩
    let b := BulkWrite.construct none
    let r := ((⟨b,[],0⟩ : BulkRun).attempt M bad).attempt M good
    r.executions.length = 1 ∧ r.executions.length ≤ 1 ∧
      (∀ call, ThrowsBefore M call r.write → ((executeBulkWrite M call r.write).1 = r.write ↔
        RefusedEarly M call r.write ∨ ¬ Renames call r.write)) ∧
      (∀ call call', ThrowsBefore M call r.write → ¬ ThrowsBefore M call' r.write →
        executeBulkWrite M call' (executeBulkWrite M call r.write).1 =
          executeBulkWrite M call' r.write) ∧
      Reaches (BulkRun.Step M) (BulkRun.Effective M) ⟨b,[],0⟩ r := by
  intro M bad good b r
  have hbad : RefusedEarly M bad b := .ns (by decide)
  have hgood : ¬ RefusedLate M good := by
    rintro (⟨e,h⟩ | ⟨e,h⟩ | ⟨s,w,h,-,-⟩) <;> cases h
  refine ⟨by decide,singleShot_of_reaches M ?_⟩
  refine (Reaches.refl.tail (.attempt bad) ⟨Or.inl rfl,fun _ => Or.inl hbad⟩ rfl).tail
    (.attempt good) ⟨Or.inl rfl,fun h => absurd h hgood⟩ rfl

/-- An unusable write concern is found when the namespace has been stored. -/
theorem not_singleShot :
    ¬ ∀ (M : MongocClients) (b : BulkWrite) (r : BulkRun),
      Reaches (BulkRun.Step M) always ⟨b,[],0⟩ r → ∀ call, ThrowsBefore M call r.write →
        (executeBulkWrite M call r.write).1 = r.write := by
  intro h
  let M : MongocClients := ⟨fun _ => 0,fun _ => ⟨1,none,none,0⟩,fun _ => true⟩
  let call : ExecuteCall :=
    ⟨.server 1,0,CString.lit "db.collection",.array none (some (.other (ascii "int")))⟩
  have hsame := h M (BulkWrite.construct none) _ Reaches.refl call rfl
  have hdatabase : (executeBulkWrite M call (BulkWrite.construct none)).1.database = none :=
    congrArg BulkWrite.database hsame
  revert hdatabase
  decide

end BulkRun

end Phongo
