import Phongo.Command.Options
import Phongo.Query.Merge

/-! Transactions of a client session: the options that sessions and transactions are started with,
and what `getTransactionOptions()` says of them. -/
namespace Phongo
open OrderedTable Attempt

/-- `mongoc_transaction_opt_t` -/
structure TransactionOpt (Rc Rp Wc : Type) where
  maxCommitTimeMs : Int64
  readConcern : Option Rc
  readPrefs : Option Rp
  writeConcern : Option Wc

/-- `mongoc_session_opt_t` -/
structure SessionOpt (Rc Rp Wc : Type) where
  causalConsistency : Option Bool
  snapshot : Option Bool
  defaultTransactionOpts : Option (TransactionOpt Rc Rp Wc)

/-- The answers of PHP and the application's code, with what the objects of the driver hold. -/
structure TransactionOutside (Rc Rp Wc : Type) extends QueryOutside Rc where
  readPreference : Zval → Option Rp
  writeConcern : Zval → Option Wc

/-- libmongoc's functions on a `mongoc_client_session_t`. One that fails comes with the exception
that is thrown. -/
structure MongocSession (S Rc Rp Wc : Type) where
  optsGetCausalConsistency : SessionOpt Rc Rp Wc → Bool
  optsGetSnapshot : SessionOpt Rc Rp Wc → Bool
  clientStartSession : Option (SessionOpt Rc Rp Wc) → Throws S
  startTransaction : S → Option (TransactionOpt Rc Rp Wc) → Throws S
  commitTransaction : S → S × Option Exception
  abortTransaction : S → S × Option Exception
  /-- what an operation in the session leaves of it -/
  operation : ℕ → S → S
  /-- `mongoc_session_opts_get_transaction_opts` -/
  transactionOpts : S → Option (TransactionOpt Rc Rp Wc)
  /-- these two take NULL for a default -/
  readConcernIsDefault : Option Rc → Bool
  writeConcernIsDefault : Option Wc → Bool

namespace TransactionOpt
variable {Rc Rp Wc : Type}

/-- `mongoc_transaction_opts_new` -/
def new : TransactionOpt Rc Rp Wc := ⟨0,none,none,none⟩

def orDefaults (opts defaults : TransactionOpt Rc Rp Wc) : TransactionOpt Rc Rp Wc where
  maxCommitTimeMs :=
    if opts.maxCommitTimeMs ≠ 0 then opts.maxCommitTimeMs else defaults.maxCommitTimeMs
  readConcern := opts.readConcern.or defaults.readConcern
  readPrefs := opts.readPrefs.or defaults.readPrefs
  writeConcern := opts.writeConcern.or defaults.writeConcern

end TransactionOpt

/-- `mongoc_session_opts_new` -/
def SessionOpt.new {Rc Rp Wc : Type} : SessionOpt Rc Rp Wc := ⟨none,none,none⟩

/-- libmongoc's functions as documented: a transaction runs under the options it was started with,
over those of its session, over those of the client, until it ends. -/
structure MongocSession.Lawful {S Rc Rp Wc : Type} (M : MongocSession S Rc Rp Wc)
    (defaults : S → TransactionOpt Rc Rp Wc) (client : TransactionOpt Rc Rp Wc) : Prop where
  clientMaxCommitTime : client.maxCommitTimeMs = 0
  clientStartSession : ∀ opts s, M.clientStartSession opts = .ok s →
    M.transactionOpts s = none ∧
      defaults s = ((opts.bind (·.defaultTransactionOpts)).getD .new).orDefaults client
  startTransaction : ∀ s opts s', M.startTransaction s opts = .ok s' →
    M.transactionOpts s' = some ((opts.getD .new).orDefaults (defaults s)) ∧
      defaults s' = defaults s
  commitTransaction : ∀ s, defaults (M.commitTransaction s).1 = defaults s ∧
    ∀ opts, M.transactionOpts (M.commitTransaction s).1 = some opts →
      M.transactionOpts s = some opts
  abortTransaction : ∀ s, defaults (M.abortTransaction s).1 = defaults s ∧
    ∀ opts, M.transactionOpts (M.abortTransaction s).1 = some opts →
      M.transactionOpts s = some opts
  operation : ∀ i s, defaults (M.operation i s) = defaults s ∧
    ∀ opts, M.transactionOpts (M.operation i s) = some opts → M.transactionOpts s = some opts

section
variable {S Rc Rp Wc : Type} (E : TransactionOutside Rc Rp Wc)

/-- "maxCommitTimeMS", the first of the options. -/
def TransactionOutside.parseMaxCommitTime (options : Options) :
    Attempt Exception (Option (TransactionOpt Rc Rp Wc)) :=
  match options.fetch "maxCommitTimeMS" with
  | none => pure none
  | some z => do
    let maxCommitTimeMs ← E.zvalToLong z
    if maxCommitTimeMs < 0 then
      Attempt.throw (invalidArgument "Expected \"maxCommitTimeMS\" option to be >= 0, %ld given"
        [.num maxCommitTimeMs.toInt])
    else if maxCommitTimeMs > 4294967295 then
      Attempt.throw (invalidArgument
        "Expected \"maxCommitTimeMS\" option to be <= %u, %ld given"
        [.num 4294967295,.num maxCommitTimeMs.toInt])
    else return some { TransactionOpt.new with maxCommitTimeMs := maxCommitTimeMs }

def parseTransactionObject {α : Type} (key : String) (className : Bytes) (select : Zval → Option α)
    (set : TransactionOpt Rc Rp Wc → α → TransactionOpt Rc Rp Wc) (options : Options)
    (opts : Option (TransactionOpt Rc Rp Wc)) :
    Attempt Exception (Option (TransactionOpt Rc Rp Wc)) :=
  match options.fetch key with
  | none => pure opts
  | some z =>
    match select z with
    | some a => pure (some (set (opts.getD .new) a))
    | none => Attempt.throw (invalidArgument "Expected \"%s\" option to be %s, %s given"
        [.bytes (ascii key),.bytes className,.bytes z.classOrTypeName])

/-- `php_mongodb_session_parse_transaction_options` -/
def TransactionOutside.parseTransactionOptions (options : Options) :
    Attempt Exception (Option (TransactionOpt Rc Rp Wc)) := do
  let opts ← E.parseMaxCommitTime options
  let opts ← parseTransactionObject "readConcern" readConcernClassName E.readConcern
    (fun opts rc => { opts with readConcern := some rc }) options opts
  let opts ← parseTransactionObject "readPreference" readPreferenceClassName E.readPreference
    (fun opts rp => { opts with readPrefs := some rp }) options opts
  parseTransactionObject "writeConcern" writeConcernClassName E.writeConcern
    (fun opts wc => { opts with writeConcern := some wc }) options opts

/-- "causalConsistency", the first of the options of a session. -/
def parseCausalConsistency (options : Options) : Option (SessionOpt Rc Rp Wc) :=
  (options.fetch "causalConsistency").map fun z =>
    { SessionOpt.new with causalConsistency := some z.isTrue }

/-- `mongoc_session_opts_set_default_transaction_opts`, unless the options are empty. -/
def setDefaultTransactionOpts (opts : Option (SessionOpt Rc Rp Wc)) :
    Option (TransactionOpt Rc Rp Wc) → Option (SessionOpt Rc Rp Wc)
  | some txnOpts => some { opts.getD .new with defaultTransactionOpts := some txnOpts }
  | none => opts

/-- "defaultTransactionOptions" -/
def TransactionOutside.parseDefaultTransactionOptions (options : Options)
    (opts : Option (SessionOpt Rc Rp Wc)) : Attempt Exception (Option (SessionOpt Rc Rp Wc)) :=
  match options.fetch "defaultTransactionOptions" with
  | none => pure opts
  | some (.array _ els) => do
    let txnOpts ← E.parseTransactionOptions els
    Attempt.check
    return setDefaultTransactionOpts opts txnOpts
  | some z => Attempt.throw (invalidArgument
      "Expected \"defaultTransactionOptions\" option to be an array, %s given"
      [.bytes z.classOrTypeName])

/-- "snapshot" -/
def parseSnapshot (options : Options) (opts : Option (SessionOpt Rc Rp Wc)) :
    Option (SessionOpt Rc Rp Wc) :=
  match options.fetch "snapshot" with
  | none => opts
  | some z => some { opts.getD .new with snapshot := some z.isTrue }

variable (M : MongocSession S Rc Rp Wc)

/-- The options that `Manager::startSession` gives libmongoc. -/
def TransactionOutside.sessionOpts (options : Option Options) :
    Attempt Exception (Option (SessionOpt Rc Rp Wc)) := do
  let opts := options.bind parseCausalConsistency
  let opts ← (match options with
    | some options => E.parseDefaultTransactionOptions options opts
    | none => pure opts)
  let opts := match options with
    | some options => parseSnapshot options opts
    | none => opts
  if opts.any fun opts => M.optsGetCausalConsistency opts && M.optsGetSnapshot opts then
    Attempt.throw (invalidArgument
      "Only one of \"causalConsistency\" and \"snapshot\" can be enabled" [])
  else return opts

/-- `Manager::startSession` -/
def TransactionOutside.startSession (options : Option Options) : Attempt Exception S := do
  let opts ← E.sessionOpts M options
  Attempt.ofExcept (M.clientStartSession opts)

/-- `SESSION_CHECK_LIVELINESS` -/
def sessionEndedError (method : String) : Exception :=
  .phongo .logic "Cannot call '%s', as the session has already been ended."
    [.bytes (ascii method)]

/-- The options `Session::startTransaction` gives libmongoc. -/
def TransactionOutside.transactionOpts (options : Option Options) :
    Attempt Exception (Option (TransactionOpt Rc Rp Wc)) := do
  let opts ← (match options with
    | some options => E.parseTransactionOptions options
    | none => pure none)
  Attempt.check
  return opts

/-- `Session::startTransaction` -/
def TransactionOutside.startTransaction (s : S) (options : Option Options) : S × Pending :=
  match E.transactionOpts options [] with
  | (none,eg) => (s,eg)
  | (some opts,eg) =>
    match M.startTransaction s opts with
    | .ok s => (s,eg)
    | .error e => (s,e::eg)

inductive SessionCall
  | startTransaction (options : Option Options)
  | commitTransaction
  | abortTransaction
  | endSession
  | operation (i : ℕ)

/-- A call on a Session object, whose client session may have been ended. What an operation in
the session throws is not looked at. -/
def TransactionOutside.sessionCall : Option S → SessionCall → Option S × Pending
  | some s, .startTransaction options =>
    let r := E.startTransaction M s options
    (some r.1,r.2)
  | some s, .commitTransaction =>
    let r := M.commitTransaction s
    (some r.1,r.2.toList)
  | some s, .abortTransaction =>
    let r := M.abortTransaction s
    (some r.1,r.2.toList)
  | some s, .operation i => (some (M.operation i s),[])
  | none, .startTransaction _ => (none,[sessionEndedError "startTransaction"])
  | none, .commitTransaction => (none,[sessionEndedError "commitTransaction"])
  | none, .abortTransaction => (none,[sessionEndedError "abortTransaction"])
  | none, .operation _ => (none,[])
  | _, .endSession => (none,[])

def TransactionOutside.sessionCalls (s : Option S) :
    List SessionCall → Option S × List (SessionCall × Pending)
  | [] => (s,[])
  | call::calls =>
    let r := E.sessionCall M s call
    let rest := TransactionOutside.sessionCalls r.1 calls
    (rest.1,(call,r.2)::rest.2)

/-- What `getTransactionOptions()` returns. -/
structure ReportedOptions (Rc Rp Wc : Type) where
  maxCommitTimeMS : Option Int64
  readConcern : Option Rc
  readPreference : Option Rp
  writeConcern : Option Wc

/-- The end of `php_phongo_transaction_options_to_zval` -/
def MongocSession.report (opts : TransactionOpt Rc Rp Wc) : ReportedOptions Rc Rp Wc where
  maxCommitTimeMS := if opts.maxCommitTimeMs ≠ 0 then some opts.maxCommitTimeMs else none
  readConcern := if M.readConcernIsDefault opts.readConcern then none else opts.readConcern
  readPreference := opts.readPrefs
  writeConcern := if M.writeConcernIsDefault opts.writeConcern then none else opts.writeConcern

/-- `Session::getTransactionOptions`, where nothing stands for NULL. -/
def MongocSession.getTransactionOptions : Option S → Throws (Option (ReportedOptions Rc Rp Wc))
  | none => .error (sessionEndedError "getTransactionOptions")
  | some s => .ok ((M.transactionOpts s).map M.report)

def TransactionOutside.given (options : Options) : TransactionOpt Rc Rp Wc where
  maxCommitTimeMs := ((options.fetch "maxCommitTimeMS").map E.number).getD 0
  readConcern := (options.fetch "readConcern").bind E.readConcern
  readPrefs := (options.fetch "readPreference").bind E.readPreference
  writeConcern := (options.fetch "writeConcern").bind E.writeConcern

/-- What the argument of `startTransaction()`, or "defaultTransactionOptions", says. -/
def TransactionOutside.givenToTransaction (options : Option Options) : TransactionOpt Rc Rp Wc :=
  (options.map E.given).getD .new

def TransactionOutside.givenToSession (options : Option Options) : TransactionOpt Rc Rp Wc :=
  match options.bind (·.fetch "defaultTransactionOptions") with
  | some (.array _ els) => E.given els
  | _ => .new

def TransactionOpt.Limited (opts : TransactionOpt Rc Rp Wc) : Prop :=
  0 ≤ opts.maxCommitTimeMs ∧ opts.maxCommitTimeMs ≤ 4294967295

def startedWith : SessionCall × Pending → Option (Option Options)
  | (.startTransaction options,[]) => some options
  | _ => none

def lastStarted (log : List (SessionCall × Pending)) : Option (Option Options) :=
  (log.filterMap startedWith).getLast?

end

section
variable {S Rc Rp Wc : Type} {E : TransactionOutside Rc Rp Wc} {M : MongocSession S Rc Rp Wc}

theorem parseMaxCommitTime_eq_some {options : Options} {opts : Option (TransactionOpt Rc Rp Wc)}
    {eg : Pending} (h : E.parseMaxCommitTime options [] = (some opts,eg)) :
    opts.getD .new =
        { TransactionOpt.new with maxCommitTimeMs := (E.given options).maxCommitTimeMs } ∧
      (E.given options).Limited := by
  unfold TransactionOpt.Limited
  unfold TransactionOutside.parseMaxCommitTime at h
  unfold TransactionOutside.given
  cases hz : options.fetch "maxCommitTimeMS" with
  | none =>
    simp only [hz,pure_apply,Prod.mk.injEq,Option.some.injEq] at h
    rw [← h.1]
    exact ⟨rfl,(by decide : (0 : Int64) ≤ 0),(by decide : (0 : Int64) ≤ 4294967295)⟩
  | some z =>
    simp only [hz] at h
    obtain ⟨n,eg',hn,h⟩ := bind_eq_some.mp h
    have hnumber : n = E.number z := by
      have hfst := congrArg Prod.fst hn
      rw [QueryOutside.zvalToLong_fst] at hfst
      exact (Option.some.inj hfst).symm
    subst hnumber
    split_ifs at h with hneg hbig
    · cases h
    · cases h
    · cases h
      exact ⟨rfl,Int64.not_lt.mp hneg,Int64.not_lt.mp hbig⟩

theorem parseTransactionObject_eq_some {α : Type} {key : String} {className : Bytes}
    {select : Zval → Option α} {set : TransactionOpt Rc Rp Wc → α → TransactionOpt Rc Rp Wc}
    {options : Options} {opts opts' : Option (TransactionOpt Rc Rp Wc)} {eg eg' : Pending}
    (h : parseTransactionObject key className select set options opts eg = (some opts',eg')) :
    opts'.getD .new =
      (((options.fetch key).bind select).map (set (opts.getD .new))).getD (opts.getD .new) := by
  unfold parseTransactionObject at h
  cases hz : options.fetch key with
  | none =>
    simp only [hz,pure_apply,Prod.mk.injEq,Option.some.injEq] at h
    rw [← h.1]
    rfl
  | some z =>
    simp only [hz] at h
    cases ha : select z with
    | none =>
      rw [ha] at h
      cases h
    | some a =>
      simp only [ha,pure_apply,Prod.mk.injEq,Option.some.injEq] at h
      rw [← h.1]
      simp [ha]

/-- Accepted options are what they say, and the time limit has 32 bits. -/
theorem parseTransactionOptions_eq_some {options : Options}
    {opts : Option (TransactionOpt Rc Rp Wc)} {eg : Pending}
    (h : E.parseTransactionOptions options [] = (some opts,eg)) :
    opts.getD .new = E.given options ∧ (E.given options).Limited := by
  obtain ⟨opts₁,eg₁,h₁,h⟩ := bind_eq_some.mp h
  obtain ⟨opts₂,eg₂,h₂,h⟩ := bind_eq_some.mp h
  obtain ⟨opts₃,eg₃,h₃,h⟩ := bind_eq_some.mp h
  obtain ⟨hms,hbounds⟩ := parseMaxCommitTime_eq_some h₁
  have hrc := parseTransactionObject_eq_some h₂
  have hrp := parseTransactionObject_eq_some h₃
  have hwc := parseTransactionObject_eq_some h
  refine ⟨?_,hbounds⟩
  rw [hwc,hrp,hrc,hms]
  unfold TransactionOutside.given
  cases (options.fetch "readConcern").bind E.readConcern <;>
    cases (options.fetch "readPreference").bind E.readPreference <;>
    cases (options.fetch "writeConcern").bind E.writeConcern <;> rfl

theorem limited_of_unset {opts : TransactionOpt Rc Rp Wc} (h : opts.maxCommitTimeMs = 0) :
    opts.Limited := by
  unfold TransactionOpt.Limited
  rw [h]
  decide

theorem limited_new : (TransactionOpt.new : TransactionOpt Rc Rp Wc).Limited := limited_of_unset rfl

theorem TransactionOpt.Limited.report {opts : TransactionOpt Rc Rp Wc} (h : opts.Limited)
    {ms : Int64} (hms : (M.report opts).maxCommitTimeMS = some ms) : 0 < ms ∧ ms ≤ 4294967295 := by
  unfold MongocSession.report at hms
  dsimp only at hms
  split_ifs at hms with hzero
  obtain rfl := Option.some.inj hms
  exact ⟨Int64.lt_of_le_of_ne h.1 (Ne.symm hzero),h.2⟩

theorem TransactionOpt.Limited.orDefaults {opts defaults : TransactionOpt Rc Rp Wc}
    (h : opts.Limited) (h' : defaults.Limited) : (opts.orDefaults defaults).Limited := by
  unfold Limited TransactionOpt.orDefaults
  dsimp only
  split_ifs
  · exact h
  · exact h'

theorem transactionOpts_eq_some {options : Option Options}
    {opts : Option (TransactionOpt Rc Rp Wc)} {eg : Pending}
    (h : E.transactionOpts options [] = (some opts,eg)) :
    eg = [] ∧ opts.getD .new = E.givenToTransaction options ∧
      (E.givenToTransaction options).Limited := by
  obtain ⟨opts',eg',hopts,h⟩ := bind_eq_some.mp h
  obtain ⟨_,eg'',hcheck,h⟩ := bind_eq_some.mp h
  obtain ⟨rfl,rfl⟩ := check_eq_some.mp hcheck
  cases h
  refine ⟨rfl,?_⟩
  cases options with
  | none =>
    cases hopts
    exact ⟨rfl,limited_new⟩
  | some options => exact parseTransactionOptions_eq_some hopts

theorem parseDefaultTransactionOptions_eq_some {options : Options}
    {opts opts' : Option (SessionOpt Rc Rp Wc)} {eg : Pending}
    (hopts : opts.bind (·.defaultTransactionOpts) = none)
    (h : E.parseDefaultTransactionOptions options opts [] = (some opts',eg)) :
    (opts'.bind (·.defaultTransactionOpts)).getD .new = E.givenToSession (some options) ∧
      (E.givenToSession (some options)).Limited := by
  unfold TransactionOutside.parseDefaultTransactionOptions at h
  unfold TransactionOutside.givenToSession
  rw [Option.bind_some]
  cases hz : options.fetch "defaultTransactionOptions" with
  | none =>
    simp only [hz,pure_apply,Prod.mk.injEq,Option.some.injEq] at h
    rw [← h.1,hopts]
    exact ⟨rfl,limited_new⟩
  | some z =>
    cases z with
    | array ht els =>
      simp only [hz] at h
      obtain ⟨txnOpts,eg',htxn,h⟩ := bind_eq_some.mp h
      obtain ⟨_,eg'',hcheck,h⟩ := bind_eq_some.mp h
      obtain ⟨hgiven,hlimited⟩ := parseTransactionOptions_eq_some htxn
      refine ⟨?_,hlimited⟩
      show _ = E.given els
      rw [← hgiven]
      cases txnOpts with
      | none =>
        cases h
        rw [setDefaultTransactionOpts,hopts]
      | some txnOpts =>
        cases h
        rfl
    | _ =>
      rw [hz] at h
      cases h

theorem sessionOpts_eq_some {options : Option Options} {opts : Option (SessionOpt Rc Rp Wc)}
    {eg : Pending} (h : E.sessionOpts M options [] = (some opts,eg)) :
    (opts.bind (·.defaultTransactionOpts)).getD .new = E.givenToSession options ∧
      (E.givenToSession options).Limited := by
  obtain ⟨opts',eg',hdefault,h⟩ := bind_eq_some.mp h
  cases options with
  | none =>
    cases hdefault
    split_ifs at h
    · cases h
    · cases h
      exact ⟨rfl,limited_new⟩
  | some options =>
    have hcausal : ((some options).bind parseCausalConsistency : Option (SessionOpt Rc Rp Wc)).bind
        (·.defaultTransactionOpts) = none := by
      simp only [Option.bind_some,parseCausalConsistency]
      cases options.fetch "causalConsistency" <;> rfl
    have hsnapshot : (parseSnapshot options opts').bind (·.defaultTransactionOpts) =
        opts'.bind (·.defaultTransactionOpts) := by
      unfold parseSnapshot
      cases options.fetch "snapshot" with
      | none => rfl
      | some z => cases opts' <;> rfl
    have hspec := parseDefaultTransactionOptions_eq_some hcausal hdefault
    rw [← hsnapshot] at hspec
    split_ifs at h
    · cases h
    · cases h
      exact hspec

/-- What is known of a client session: its defaults, and the options of the transaction that
runs, which were given when it was started. -/
structure Tracks (E : TransactionOutside Rc Rp Wc) (M : MongocSession S Rc Rp Wc)
    (defaults : S → TransactionOpt Rc Rp Wc) (session : TransactionOpt Rc Rp Wc)
    (given : Option (Option Options)) (s : S) : Prop where
  defaults : defaults s = session
  running : ∀ opts, M.transactionOpts s = some opts → ∃ options, given = some options ∧
    opts = (E.givenToTransaction options).orDefaults session ∧
    (E.givenToTransaction options).Limited

variable {defaults : S → TransactionOpt Rc Rp Wc} {client session : TransactionOpt Rc Rp Wc}

/-- What leaves the options of a running transaction as they are. -/
theorem Tracks.unchanged {given : Option (Option Options)} {s s' : S}
    (h : Tracks E M defaults session given s) (hdefaults : defaults s' = defaults s)
    (hopts : ∀ opts, M.transactionOpts s' = some opts → M.transactionOpts s = some opts) :
    Tracks E M defaults session given s' :=
  ⟨hdefaults.trans h.defaults,fun opts ho => h.running opts (hopts opts ho)⟩

theorem reports_parseTransactionObject {α : Type} (key : String) (className : Bytes)
    (select : Zval → Option α) (set : TransactionOpt Rc Rp Wc → α → TransactionOpt Rc Rp Wc)
    (options : Options) (opts : Option (TransactionOpt Rc Rp Wc)) :
    (parseTransactionObject key className select set options opts).Reports := by
  unfold parseTransactionObject
  cases options.fetch key with
  | none => exact reports_pure _
  | some z =>
    cases hz : select z with
    | none =>
      simp only [hz]
      exact reports_throw _
    | some a =>
      simp only [hz]
      exact reports_pure _

theorem reports_parseTransactionOptions (options : Options) :
    (E.parseTransactionOptions options).Reports := by
  have hms : (E.parseMaxCommitTime options).Reports := by
    unfold TransactionOutside.parseMaxCommitTime
    cases options.fetch "maxCommitTimeMS" with
    | none => exact reports_pure _
    | some z =>
      have hlong : (E.zvalToLong z).Reports := fun eg h => by
        rw [QueryOutside.zvalToLong_fst] at h
        cases h
      refine hlong.bind fun n => ?_
      split_ifs
      · exact reports_throw _
      · exact reports_throw _
      · exact reports_pure _
  exact hms.bind fun _ => (reports_parseTransactionObject _ _ _ _ _ _).bind fun _ =>
    (reports_parseTransactionObject _ _ _ _ _ _).bind fun _ =>
      reports_parseTransactionObject _ _ _ _ _ _

theorem reports_transactionOpts (options : Option Options) :
    (E.transactionOpts options).Reports := by
  have hcheck : ∀ opts : Option (TransactionOpt Rc Rp Wc),
      (check >>= fun _ => pure opts : Attempt Exception _).Reports := fun opts =>
    reports_check.bind fun _ => reports_pure _
  cases options with
  | none => exact (reports_pure _).bind hcheck
  | some options => exact (reports_parseTransactionOptions options).bind hcheck

/-- A call that starts a transaction, or throws and leaves the session alone. -/
theorem startTransaction_cases (E : TransactionOutside Rc Rp Wc) (M : MongocSession S Rc Rp Wc)
    (s : S) (options : Option Options) :
    (∃ e eg, E.startTransaction M s options = (s,e::eg)) ∨
      ∃ opts s', E.transactionOpts options [] = (some opts,[]) ∧
        M.startTransaction s opts = .ok s' ∧ E.startTransaction M s options = (s',[]) := by
  have hreports := reports_transactionOpts (E:=E) options []
  unfold TransactionOutside.startTransaction
  rcases hopts : E.transactionOpts options [] with ⟨_ | opts,eg⟩
  · rw [hopts] at hreports
    obtain ⟨e,eg',rfl⟩ := List.exists_cons_of_ne_nil (hreports rfl)
    exact Or.inl ⟨e,eg',rfl⟩
  · obtain ⟨rfl,-,-⟩ := transactionOpts_eq_some hopts
    cases hstart : M.startTransaction s opts with
    | error e => exact Or.inl ⟨e,[],by simp [hstart]⟩
    | ok s' => exact Or.inr ⟨opts,s',rfl,hstart,by simp [hstart]⟩

/-- One call on a Session object that has not been ended by it. -/
theorem Tracks.sessionCall (hM : M.Lawful defaults client) {given : Option (Option Options)}
    {s s' : S} (h : Tracks E M defaults session given s) (call : SessionCall)
    (hcall : (E.sessionCall M (some s) call).1 = some s') :
    Tracks E M defaults session
      ((startedWith (call,(E.sessionCall M (some s) call).2)).or given) s' := by
  cases call with
  | startTransaction options =>
    obtain ⟨e,eg,heq⟩ | ⟨opts,t,hopts,hstart,heq⟩ := startTransaction_cases E M s options
    · simp only [TransactionOutside.sessionCall,heq,Option.some.injEq] at hcall ⊢
      exact hcall ▸ h
    · simp only [TransactionOutside.sessionCall,heq,Option.some.injEq] at hcall ⊢
      subst hcall
      obtain ⟨hrunning,hdefaults⟩ := hM.startTransaction s opts t hstart
      obtain ⟨-,hgiven,hlimited⟩ := transactionOpts_eq_some hopts
      refine ⟨hdefaults.trans h.defaults,fun opts' ho => ⟨options,rfl,?_,hlimited⟩⟩
      rw [hrunning] at ho
      rw [← Option.some.inj ho,hgiven,h.defaults]
  | commitTransaction =>
    obtain rfl := Option.some.inj hcall
    obtain ⟨hdefaults,hopts⟩ := hM.commitTransaction s
    exact h.unchanged hdefaults hopts
  | abortTransaction =>
    obtain rfl := Option.some.inj hcall
    obtain ⟨hdefaults,hopts⟩ := hM.abortTransaction s
    exact h.unchanged hdefaults hopts
  | operation i =>
    obtain rfl := Option.some.inj hcall
    obtain ⟨hdefaults,hopts⟩ := hM.operation i s
    exact h.unchanged hdefaults hopts
  | endSession => cases hcall

theorem sessionCalls_ended (calls : List SessionCall) :
    (E.sessionCalls M none calls).1 = none := by
  induction calls with
  | nil => rfl
  | cons call calls ih => cases call <;> exact ih

theorem lastStarted_cons (call : SessionCall × Pending) (log : List (SessionCall × Pending))
    (given : Option (Option Options)) :
    (lastStarted (call::log)).or given = (lastStarted log).or ((startedWith call).or given) := by
  unfold lastStarted
  rw [List.filterMap_cons]
  cases startedWith call with
  | none => rfl
  | some options =>
    cases hlast : (log.filterMap startedWith).getLast? with
    | none =>
      rw [List.getLast?_eq_none_iff.mp hlast]
      rfl
    | some options' => simp [List.getLast?_cons,hlast]

/-- Calls in a row keep track of the transaction that runs. -/
theorem Tracks.sessionCalls (hM : M.Lawful defaults client) (calls : List SessionCall)
    {given : Option (Option Options)} {s s' : S} (h : Tracks E M defaults session given s)
    (hcalls : (E.sessionCalls M (some s) calls).1 = some s') :
    Tracks E M defaults session
      ((lastStarted (E.sessionCalls M (some s) calls).2).or given) s' := by
  induction calls generalizing given s with
  | nil =>
    obtain rfl := Option.some.inj hcalls
    exact h
  | cons call calls ih =>
    rw [TransactionOutside.sessionCalls] at hcalls ⊢
    rw [lastStarted_cons]
    cases hcall : (E.sessionCall M (some s) call).1 with
    | none =>
      rw [hcall,sessionCalls_ended] at hcalls
      cases hcalls
    | some t =>
      rw [hcall] at hcalls
      exact ih (h.sessionCall hM call hcall) hcalls

theorem startSession_tracks (hM : M.Lawful defaults client) {options : Option Options} {s : S}
    {eg : Pending} (h : E.startSession M options [] = (some s,eg)) :
    Tracks E M defaults ((E.givenToSession options).orDefaults client) none s ∧
      (E.givenToSession options).Limited := by
  obtain ⟨opts,eg',hopts,h⟩ := bind_eq_some.mp h
  obtain ⟨hstart,-⟩ := ofExcept_eq_some.mp h
  obtain ⟨hgiven,hlimited⟩ := sessionOpts_eq_some hopts
  obtain ⟨hnone,hdefaults⟩ := hM.clientStartSession opts s hstart
  refine ⟨⟨by rw [hdefaults,hgiven],fun opts' ho => ?_⟩,hlimited⟩
  rw [hnone] at ho
  cases ho

/-- After any calls on a session, what `getTransactionOptions()` reports of the transaction that
runs are the options it was started with, then those its session was started with, then those of
the client. Without a transaction it reports nothing, of an ended session it throws. -/
theorem transactionOptions_reported (hM : M.Lawful defaults client) {options : Option Options}
    {s : S} {eg : Pending} (hstart : E.startSession M options [] = (some s,eg))
    (calls : List SessionCall) :
    let r := E.sessionCalls M (some s) calls
    (r.1 = none → M.getTransactionOptions r.1 =
      .error (sessionEndedError "getTransactionOptions")) ∧
    ∀ t, r.1 = some t →
      (M.transactionOpts t = none → M.getTransactionOptions r.1 = .ok none) ∧
      ∀ opts, M.transactionOpts t = some opts → ∃ given reported,
        lastStarted r.2 = some given ∧ M.getTransactionOptions r.1 = .ok (some reported) ∧
        reported = M.report ((E.givenToTransaction given).orDefaults
          ((E.givenToSession options).orDefaults client)) ∧
        ∀ ms, reported.maxCommitTimeMS = some ms → 0 < ms ∧ ms ≤ 4294967295 := by
  obtain ⟨htracks,hlimited⟩ := startSession_tracks hM hstart
  intro r
  refine ⟨fun hr => by rw [hr]; rfl,fun t hr => ?_⟩
  rw [hr]
  refine ⟨fun hnone => by rw [MongocSession.getTransactionOptions,hnone]; rfl,fun opts ho => ?_⟩
  obtain ⟨-,hrunning⟩ := htracks.sessionCalls hM calls hr
  obtain ⟨given,hgiven,hopts,hgivenLimited⟩ := hrunning opts ho
  rw [Option.or_none] at hgiven
  refine ⟨given,M.report opts,hgiven,by rw [MongocSession.getTransactionOptions,ho]; rfl,
    congrArg M.report hopts,fun ms hms => ?_⟩
  have hclient := limited_of_unset hM.clientMaxCommitTime
  have hbounds : opts.Limited := hopts ▸ hgivenLimited.orDefaults (hlimited.orDefaults hclient)
  exact hbounds.report hms

end

/-- A libmongoc whose sessions are their default options and those of the transaction that runs,
under a client that sets none. -/
def MongocSession.plain {Rc Rp Wc : Type} :
    MongocSession (TransactionOpt Rc Rp Wc × Option (TransactionOpt Rc Rp Wc)) Rc Rp Wc where
  optsGetCausalConsistency opts := opts.causalConsistency.getD (!opts.snapshot.getD false)
  optsGetSnapshot opts := opts.snapshot.getD false
  clientStartSession opts :=
    .ok (((opts.bind (·.defaultTransactionOpts)).getD .new).orDefaults .new,none)
  startTransaction s opts :=
    if s.2.isSome then .error (.userland 0) else .ok (s.1,some ((opts.getD .new).orDefaults s.1))
  commitTransaction s := ((s.1,none),if s.2.isSome then none else some (.userland 0))
  abortTransaction s := ((s.1,none),if s.2.isSome then none else some (.userland 0))
  operation _ s := s
  transactionOpts s := s.2
  readConcernIsDefault rc := rc.isNone
  writeConcernIsDefault wc := wc.isNone

theorem MongocSession.plain_lawful {Rc Rp Wc : Type} :
    (plain : MongocSession _ Rc Rp Wc).Lawful Prod.fst .new where
  clientMaxCommitTime := rfl
  clientStartSession opts s h := by
    obtain rfl := Except.ok.inj h
    exact ⟨rfl,rfl⟩
  startTransaction s opts s' h := by
    simp only [plain] at h
    split_ifs at h
    obtain rfl := Except.ok.inj h
    exact ⟨rfl,rfl⟩
  commitTransaction s := ⟨rfl,fun opts h => (by cases h)⟩
  abortTransaction s := ⟨rfl,fun opts h => (by cases h)⟩
  operation i s := ⟨rfl,fun opts h => h⟩

/-- A transaction in which something was done, in a session with a longer default. -/
theorem transactionOptions_reported_default :
    let E : TransactionOutside ℕ ℕ ℕ :=
      ⟨⟨.ascii,.keeping .person,fun _ => true,.userland 0,fun _ => [],fun _ => (0,[]),
        fun _ => none⟩,fun _ => none,fun _ => none⟩
    let r := E.sessionCalls .plain
      (some (⟨100,none,none,none⟩,none))
      [.startTransaction (some [(.str (ascii "maxCommitTimeMS"),.long 5)]),.operation 0]
    MongocSession.plain.getTransactionOptions r.1 = .ok (some ⟨some 5,none,none,none⟩) := by
  intro E r
  have hstart : E.startSession .plain (some [(.str (ascii "defaultTransactionOptions"),
      .array none [(.str (ascii "maxCommitTimeMS"),.long 100)])]) [] =
      (some (⟨100,none,none,none⟩,none),[]) := rfl
  obtain ⟨-,hr⟩ := transactionOptions_reported MongocSession.plain_lawful hstart
    [.startTransaction (some [(.str (ascii "maxCommitTimeMS"),.long 5)]),.operation 0]
  obtain ⟨given,reported,hgiven,hget,hreported,-⟩ := (hr _ rfl).2 _ rfl
  obtain rfl : some [(Key.str (ascii "maxCommitTimeMS"),Zval.long 5)] = given :=
    Option.some.inj hgiven
  rw [hget,hreported]
  rfl

end Phongo
