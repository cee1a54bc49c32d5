import Mathlib.Tactic.Common
import Phongo.Query.Execution

/-! The execute methods of Manager and Server. A Manager looks at the options to select a server,
and then does what the Server would do, which looks at them again. -/
namespace Phongo
open Throwing

inductive CommandMethod
  | executeCommand | executeReadCommand | executeWriteCommand | executeReadWriteCommand
  deriving DecidableEq

def CommandMethod.type : CommandMethod → CommandType
  | .executeCommand => .raw
  | .executeReadCommand => .read
  | .executeWriteCommand => .write
  | .executeReadWriteCommand => .readWrite

/-- What a method of a Manager tells `php_phongo_manager_select_server`. -/
structure Selection where
  forWrites : Bool
  inheritReadPreference : Bool
  /-- the method looks for a "readPreference" option -/
  readsPreference : Bool

def CommandMethod.selection : CommandMethod → Selection
  | .executeCommand => ⟨false,false,true⟩
  | .executeReadCommand => ⟨false,true,true⟩
  | .executeWriteCommand => ⟨true,false,false⟩
  | .executeReadWriteCommand => ⟨true,false,false⟩

/-- The selection of `Manager::executeQuery`. -/
def querySelection : Selection := ⟨false,true,true⟩

structure CommandArguments (Rc Rp Wc : Type) where
  client : ℕ
  db : CString
  command : Command
  options : OptionsArgument Rc Rp Wc

/-- `executeCommand()` takes a read preference in place of options. -/
def CommandMethod.call {Rc Rp Wc : Type} (method : CommandMethod)
    (args : CommandArguments Rc Rp Wc) : CommandCall Rc Rp Wc where
  type := method.type
  client := args.client
  db := args.db
  command := args.command
  options := if method = .executeCommand then args.options.prepLegacyOption else args.options

/-- `executeQuery()` does so, too. -/
def QueryCall.prepared {Rc Rp Wc : Type} (call : QueryCall Rc Rp Wc) : QueryCall Rc Rp Wc :=
  { call with options := call.options.prepLegacyOption }

namespace MongocExecution
variable {Rc Rp Wc : Type} (M : MongocExecution Rc Rp Wc)

/-- `php_phongo_manager_select_server` -/
def managerSelectServer (s : Selection) (readPreference : Option Rp)
    (session : Option SessionObject) (client : ℕ) : Throws UInt32 :=
  let pinned : UInt32 := match session with
    | some session => M.sessionGetServerId session.clientSession
    | none => 0
  if pinned > 0 then .ok pinned
  else
    M.selectServer client s.forWrites
      (if s.forWrites then none
      else readPreference.or
        (if s.inheritReadPreference then some (M.clientGetReadPrefs client) else none))

def selectFor (s : Selection) (options : OptionsArgument Rc Rp Wc) (client : ℕ) :
    Throws UInt32 := do
  let session ← options.parseSession M client
  let readPreference ← (if s.readsPreference then options.parseReadPreference else pure none)
  M.managerSelectServer s readPreference session client

def serverExecute (method : CommandMethod) (args : CommandArguments Rc Rp Wc) (serverId : UInt32) :
    CommandOutcome Rp :=
  M.executeCommand (method.call args) serverId

def managerExecute (method : CommandMethod) (args : CommandArguments Rc Rp Wc) :
    CommandOutcome Rp :=
  let call := method.call args
  match M.selectFor method.selection call.options call.client with
  | .error e => ⟨none,none,none,.error e⟩
  | .ok serverId => M.executeCommand call serverId

/-- `Server::executeQuery` -/
def serverExecuteQuery (call : QueryCall Rc Rp Wc) (serverId : UInt32) : QueryOutcome Rc Rp :=
  M.executeQuery call.prepared serverId

/-- `Manager::executeQuery` -/
def managerExecuteQuery (call : QueryCall Rc Rp Wc) : QueryOutcome Rc Rp :=
  match M.selectFor querySelection call.prepared.options call.client with
  | .error e => ⟨none,.error e⟩
  | .ok serverId => M.executeQuery call.prepared serverId

end MongocExecution

/-- The method threw, and libmongoc was not asked to send anything or to start a session. -/
def CommandOutcome.Refused {Rp : Type} (out : CommandOutcome Rp) : Prop :=
  ∃ e, out = ⟨none,none,none,.error e⟩

def QueryOutcome.Refused {Rc Rp : Type} (out : QueryOutcome Rc Rp) : Prop :=
  ∃ e, out = ⟨none,.error e⟩

section
variable {Rc Rp Wc : Type}

def MongocExecution.route (M : MongocExecution Rc Rp Wc) (s : Selection)
    (options : OptionsArgument Rc Rp Wc) (client : ℕ) : Throws UInt32 :=
  M.managerSelectServer s
    (if s.readsPreference then
      options.given OptionArray.readPreference OptionObject.readPreference? else none)
    (options.given OptionArray.session OptionObject.session?) client

variable {M : MongocExecution Rc Rp Wc}

/-- What a Manager refuses of the options, without a look at the servers. -/
def MongocExecution.RefusesOptions (M : MongocExecution Rc Rp Wc) (s : Selection)
    (options : OptionsArgument Rc Rp Wc) (client : ℕ) : Prop :=
  Fails (options.parseSession M client) ∨
    s.readsPreference = true ∧ Fails options.parseReadPreference

theorem selectFor_cases (s : Selection) (options : OptionsArgument Rc Rp Wc) (client : ℕ) :
    M.selectFor s options client = M.route s options client ∨
      Fails (M.selectFor s options client) ∧ M.RefusesOptions s options client := by
  unfold MongocExecution.RefusesOptions
  cases hsession : options.parseSession M client with
  | error e =>
    have hfails : M.selectFor s options client = .error e := by
      unfold MongocExecution.selectFor
      rw [hsession]
      rfl
    exact .inr ⟨⟨e,hfails⟩,.inl ⟨e,rfl⟩⟩
  | ok session =>
    obtain ⟨rfl,-⟩ := OptionsArgument.parseSession_eq_ok hsession
    cases hs : s.readsPreference with
    | false =>
      refine .inl ?_
      simp only [MongocExecution.selectFor,hsession,MongocExecution.route,hs]
      rfl
    | true =>
      cases hpreference : options.parseReadPreference with
      | error e =>
        have hfails : M.selectFor s options client = .error e := by
          simp only [MongocExecution.selectFor,hsession,hs,if_true,hpreference]
          rfl
        exact .inr ⟨⟨e,hfails⟩,.inr ⟨rfl,e,rfl⟩⟩
      | ok readPreference =>
        have hgiven := OptionsArgument.parse_eq_ok hpreference
        refine .inl ?_
        simp only [MongocExecution.selectFor,hsession,hs,if_true,hpreference,
          MongocExecution.route,← hgiven]
        rfl

theorem fails_parseSessionInto {options : OptionsArgument Rc Rp Wc} {client : ℕ}
    (h : Fails (options.parseSession M client)) (opts : Doc) :
    Fails (options.parseSessionInto M client opts) := fails_bind.mpr (.inl h)

/-- Options that a Manager refuses are refused again by what a Server does. -/
theorem executeCommand_refused {call : CommandCall Rc Rp Wc} {s : Selection}
    (hs : s.readsPreference = true → call.type.has optionReadPreference = true)
    (h : M.RefusesOptions s call.options call.client) (serverId : UInt32) :
    (M.executeCommand call serverId).Refused := by
  have hparts : Fails (M.parseCommandOptions call) := by
    unfold MongocExecution.parseCommandOptions
    refine fails_bind_right _ fun opts => ?_
    rcases h with hsession | ⟨hreads,hpreference⟩
    · exact fails_bind_right _ fun _ =>
        fails_bind.mpr (.inl (fails_parseSessionInto hsession opts))
    · refine fails_bind.mpr (.inl ?_)
      rwa [if_pos (hs hreads)]
  obtain ⟨e,he⟩ := hparts
  exact ⟨e,by simp [MongocExecution.executeCommand,he]⟩

theorem executeQuery_refused {call : QueryCall Rc Rp Wc} {s : Selection}
    (h : M.RefusesOptions s call.options call.client) (serverId : UInt32) :
    (M.executeQuery call serverId).Refused := by
  have hparts : Fails (M.parseQueryOptions call serverId) := by
    unfold MongocExecution.parseQueryOptions
    rcases h with hsession | ⟨-,hpreference⟩
    · exact fails_bind_right _ fun _ =>
        fails_bind.mpr (.inl (fails_parseSessionInto hsession _))
    · exact fails_bind.mpr (.inl hpreference)
  obtain ⟨e,he⟩ := hparts
  unfold MongocExecution.executeQuery
  cases splitNamespace call.ns with
  | none => exact ⟨_,rfl⟩
  | some names => exact ⟨e,by simp [he]⟩

theorem CommandMethod.has_readPreference (method : CommandMethod)
    (h : method.selection.readsPreference = true) :
    method.type.has optionReadPreference = true := by
  cases method with
  | executeCommand => rfl
  | executeReadCommand => rfl
  | executeWriteCommand => cases h
  | executeReadWriteCommand => cases h

/-- A method of a Manager does what the Server's does on the server that it selects, the one a
session is pinned to before any other; where it refuses the options, or finds no server, nothing
is sent, and options it refuses no Server accepts. -/
theorem manager_agreesWithServers (M : MongocExecution Rc Rp Wc) :
    (∀ method (args : CommandArguments Rc Rp Wc),
      (∃ serverId, M.route method.selection (method.call args).options args.client = .ok serverId ∧
        M.managerExecute method args = M.serverExecute method args serverId) ∨
      (M.managerExecute method args).Refused ∧
        (Fails (M.route method.selection (method.call args).options args.client) ∨
          ∀ serverId, (M.serverExecute method args serverId).Refused)) ∧
    (∀ call : QueryCall Rc Rp Wc,
      (∃ serverId, M.route querySelection call.prepared.options call.client = .ok serverId ∧
        M.managerExecuteQuery call = M.serverExecuteQuery call serverId) ∨
      (M.managerExecuteQuery call).Refused ∧
        (Fails (M.route querySelection call.prepared.options call.client) ∨
          ∀ serverId, (M.serverExecuteQuery call serverId).Refused)) ∧
    ∀ s options client session,
      options.given OptionArray.session OptionObject.session? = some session →
      M.sessionGetServerId session.clientSession > 0 →
      M.route s options client = .ok (M.sessionGetServerId session.clientSession) := by
  refine ⟨fun method args => ?_,fun call => ?_,fun s options client session hsession hpinned => ?_⟩
  · have hselect := selectFor_cases (M:=M) method.selection (method.call args).options args.client
    cases hfor : M.selectFor method.selection (method.call args).options args.client with
    | ok serverId =>
      have hrun : M.managerExecute method args = M.serverExecute method args serverId := by
        have hfor : M.selectFor method.selection (method.call args).options (method.call args).client =
          .ok serverId := hfor
        simp only [MongocExecution.managerExecute,hfor]
        rfl
      rcases hselect with hroute | ⟨⟨e,he⟩,-⟩
      · exact .inl ⟨serverId,hroute.symm.trans hfor,hrun⟩
      · rw [hfor] at he
        cases he
    | error e =>
      have hrun : M.managerExecute method args = ⟨none,none,none,.error e⟩ := by
        have hfor : M.selectFor method.selection (method.call args).options (method.call args).client =
          .error e := hfor
        simp only [MongocExecution.managerExecute,hfor]
      rcases hselect with hroute | ⟨-,hrefuses⟩
      · exact .inr ⟨⟨e,hrun⟩,.inl ⟨e,hroute.symm.trans hfor⟩⟩
      · exact .inr ⟨⟨e,hrun⟩,.inr fun serverId =>
          executeCommand_refused method.has_readPreference hrefuses serverId⟩
  · have hselect := selectFor_cases (M:=M) querySelection call.prepared.options call.client
    cases hfor : M.selectFor querySelection call.prepared.options call.client with
    | ok serverId =>
      have hrun : M.managerExecuteQuery call = M.serverExecuteQuery call serverId := by
        simp only [MongocExecution.managerExecuteQuery,hfor]
        rfl
      rcases hselect with hroute | ⟨⟨e,he⟩,-⟩
      · exact .inl ⟨serverId,hroute.symm.trans hfor,hrun⟩
      · rw [hfor] at he
        cases he
    | error e =>
      have hrun : M.managerExecuteQuery call = ⟨none,.error e⟩ := by
        simp only [MongocExecution.managerExecuteQuery,hfor]
      rcases hselect with hroute | ⟨-,hrefuses⟩
      · exact .inr ⟨⟨e,hrun⟩,.inl ⟨e,hroute.symm.trans hfor⟩⟩
      · exact .inr ⟨⟨e,hrun⟩,.inr fun serverId => executeQuery_refused hrefuses serverId⟩
  · simp only [MongocExecution.route,MongocExecution.managerSelectServer,hsession]
    rw [if_pos hpinned]

end

end Phongo
