import Mathlib.Tactic.Common
import Phongo.Lib.Run
import Phongo.Manager.Construct

/-! Operations through Managers and Servers, the reset of inherited clients, and processes that
fork. -/
namespace Phongo
open OrderedTable

/-- `phongo_pclient_reset_once`: the pclient afterwards and what libmongoc is asked to do. -/
def Pclient.resetOnce (pclient : Pclient) (pid : ℕ) : Pclient × List ClientCall :=
  if pclient.lastResetByPid ≠ pid then
    ({ pclient with lastResetByPid := pid },[.reset pclient.client])
  else (pclient,[])

/-- The loop over the request-scoped registry, which ends at the first pclient of the client. -/
def resetRequestClient (client : Option ℕ) (pid : ℕ) : List Pclient → List Pclient × List ClientCall
  | [] => ([],[])
  | pclient::rest =>
    if some pclient.client = client then
      let r := pclient.resetOnce pid
      (r.1::rest,r.2)
    else
      let r := resetRequestClient client pid rest
      (pclient::r.1,r.2)

inductive Through
  | manager (id : ℕ)
  | server (id : ℕ)

inductive Operation
  /-- the options are rejected after the reset -/
  | rejected
  /-- a command, query or bulk write, and whether a Cursor comes back -/
  | execute (cursor : Bool)
  /-- and whether there is a Session -/
  | startSession (started : Bool)

/-- What a process does. User code that runs inside one of these makes no Managers. -/
inductive Action (Uri : Type)
  | construct (E : Outside Uri) (a : ManagerArgs)
  | freeManager (id : ℕ)
  /-- `phongo_server_init`: Manager::getServers() and selectServer(), and getServer() of a Cursor,
  Session or WriteResult -/
  | getServer (manager : ℕ)
  | operate (through : Through) (operation : Operation)
  | freeHandle (id : ℕ)

namespace Process

/-- The registry's part in `php_phongo_client_reset_once`. -/
def resetRegistered (s : Process) (m : Manager) : Process :=
  if m.usePersistentClient then
    match find? s.persistentClients (m.clientHash.getD []) with
    | some pclient =>
      let r := pclient.resetOnce s.pid
      { s with persistentClients := update s.persistentClients (m.clientHash.getD []) r.1
               calls := r.2 ++ s.calls }
    | none => s
  else
    let r := resetRequestClient m.client s.pid s.requestClients
    { s with requestClients := r.1, calls := r.2 ++ s.calls }

/-- `php_phongo_client_reset_once` for the current process -/
def clientResetOnce (s : Process) : Manager → Process
  | ⟨id,pid,hash,persistent,client,some keyVault⟩ =>
    (s.clientResetOnce keyVault).resetRegistered ⟨id,pid,hash,persistent,client,some keyVault⟩
  | ⟨id,pid,hash,persistent,client,none⟩ => s.resetRegistered ⟨id,pid,hash,persistent,client,none⟩

/-- `PHONGO_RESET_CLIENT_IF_PID_DIFFERS` -/
def resetClientIfPidDiffers (s : Process) (createdByPid : ℕ) (m : Manager) : Process :=
  if createdByPid ≠ s.pid then s.clientResetOnce m else s

def addHandle (s : Process) (kind : HandleKind) (m : Manager) : Process :=
  { s with handles := s.handles ++ [⟨s.made,kind,m,s.pid⟩], made := s.made + 1 }

def findManager (s : Process) (id : ℕ) : Option Manager := s.objects.find? (·.id = id)

def findServer (s : Process) (id : ℕ) : Option Handle :=
  s.handles.find? fun h => h.id = id && h.kind = .server

def isHeld (s : Process) (m : Manager) : Bool :=
  s.objects.any (fun o => o.keyVaultClientManager.any (·.id = m.id)) ||
    s.handles.any (·.manager.id = m.id)

def useClient (s : Process) (m : Manager) : Process :=
  { s with calls := (m.client.toList.map .use) ++ s.calls }

/-- The rest of an operation, once the client may have been reset. -/
def perform (s : Process) (m : Manager) : Operation → Process
  | .rejected => s
  | .execute cursor => if cursor then (s.useClient m).addHandle .cursor m else s.useClient m
  | .startSession started =>
    if started then (s.useClient m).addHandle .session m else s.useClient m

/-- The pid and the Manager of the object an operation goes through; sessions are started by
Managers only. -/
def target (s : Process) (operation : Operation) : Through → Option (ℕ × Manager)
  | .manager id => (s.findManager id).map fun m => (m.createdByPid,m)
  | .server id =>
    match operation with
    | .startSession _ => none
    | .rejected | .execute _ => (s.findServer id).map fun h => (h.createdByPid,h.manager)

def freeHandle (s : Process) (h : Handle) : Process :=
  let s := { s with handles := s.handles.filter (·.id ≠ h.id) }
  match h.kind with
  | .server => s
  | .cursor | .session => s.resetClientIfPidDiffers h.createdByPid h.manager

def run {Uri : Type} (s : Process) : Action Uri → Option Process
  | .construct E a => some (E.construct s a).1
  | .freeManager id =>
    match s.findManager id with
    | some m => if s.isHeld m then none else some (s.freeManager m)
    | none => none
  | .getServer id => (s.findManager id).map (s.addHandle .server)
  | .operate through operation =>
    match s.target operation through with
    | some (createdByPid,m) => some ((s.resetClientIfPidDiffers createdByPid m).perform m operation)
    | none => none
  | .freeHandle id => (s.handles.find? (·.id = id)).map s.freeHandle

def start (pid : ℕ) : Process := ⟨pid,[],[],[],[],[],[],0,[],[]⟩

/-- The child after `fork()`: all is copied, and nothing is asked of libmongoc yet. -/
def fork (s : Process) (pid : ℕ) : Process := { s with pid := pid, calls := [] }

end Process

/-- The processes that run, and every pid there has been. -/
structure World where
  processes : List Process
  pids : List ℕ

inductive Event (Uri : Type)
  | act (pid : ℕ) (action : Action Uri)
  | fork (parent child : ℕ)
  | exit (pid : ℕ)

namespace World
variable {Uri : Type}

def findProcess (w : World) (pid : ℕ) : Option Process := w.processes.find? (·.pid = pid)

def run (w : World) : Event Uri → Option World
  | .act pid action =>
    match (w.findProcess pid).bind (·.run action) with
    | some s =>
      some { w with processes := w.processes.map fun t => if t.pid = pid then s else t }
    | none => none
  | .fork parent child =>
    match w.findProcess parent with
    | some s =>
      if child = 0 ∨ child ∈ w.pids then none
      else some ⟨w.processes ++ [s.fork child],w.pids ++ [child]⟩
    | none => none
  | .exit pid => some { w with processes := w.processes.filter (·.pid ≠ pid) }

def Step (w : World) (e : Event Uri) (w' : World) : Prop := w.run e = some w'

def start (pid : ℕ) : World := ⟨[Process.start pid],[pid]⟩

theorem step_single (s : Process) (action : Action Uri) {s' : Process} {pids : List ℕ}
    (h : s.run action = some s') : Step ⟨[s],pids⟩ (.act s.pid action) ⟨[s'],pids⟩ := by
  simp [Step,World.run,findProcess,h]

end World

def Process.vault : Process := (Outside.plain.construct (Process.start 1) .vault).1

def Process.encrypted : Process := (Outside.plain.construct Process.vault .encrypted).1

theorem World.step_vault :
    Step ⟨[Process.start 1],[1]⟩ (.act 1 (.construct Outside.plain .vault)) ⟨[Process.vault],[1]⟩ :=
  step_single (Process.start 1) (.construct Outside.plain .vault) rfl

theorem World.step_encrypted :
    Step ⟨[Process.vault],[1]⟩ (.act 1 (.construct Outside.plain .encrypted))
      ⟨[Process.encrypted],[1]⟩ :=
  step_single Process.vault (.construct Outside.plain .encrypted) rfl

end Phongo
