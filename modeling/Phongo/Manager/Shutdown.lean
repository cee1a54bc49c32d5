import Mathlib.Tactic.Common
import Phongo.Manager.World

/-! The end of a process: free handlers, RSHUTDOWN and GSHUTDOWN, in any order. -/
namespace Phongo

/-- A process whose objects are freed and whose request and module shut down. -/
structure Ending where
  process : Process
  /-- `MONGODB_G(request_clients)` and `MONGODB_G(managers)` are NULL -/
  registriesNull : Bool
  /-- the calls of `mongoc_client_destroy`, each with the process as it was -/
  destructions : List (ℕ × Process)
  /-- a handler has iterated a registry that is NULL -/
  nullIterated : Bool

inductive EndAction
  | freeManager (id : ℕ)
  | freeHandle (id : ℕ)
  | requestShutdown
  | globalsShutdown

/-- `php_phongo_client_reset_once` iterates the request-scoped registry for the Manager or a key
vault Manager behind it. -/
def Manager.iteratesRequestClients : Manager → Bool
  | ⟨_,_,_,persistent,_,some keyVault⟩ => keyVault.iteratesRequestClients || !persistent
  | ⟨_,_,_,persistent,_,none⟩ => !persistent

namespace Ending

def start (s : Process) : Ending := ⟨s,false,[],false⟩

/-- `php_phongo_pclient_destroy` -/
def destroy (e : Ending) (pclient : Pclient) : Ending :=
  { e with
    process := e.process.pclientDestroy pclient
    destructions :=
      if pclient.createdByPid = e.process.pid then (pclient.client,e.process)::e.destructions
      else e.destructions }

/-- `php_phongo_client_unregister` -/
def clientUnregister (e : Ending) (m : Manager) : Ending :=
  if m.usePersistentClient then e
  else if e.registriesNull then e
  else
    match e.process.requestClients.find? (fun pclient => some pclient.client = m.client) with
    | some pclient =>
      { e with process := { e.process with
          requestClients := e.process.requestClients.eraseP fun pclient =>
            some pclient.client = m.client } }.destroy pclient
    | none => e

/-- `php_phongo_manager_free_object`. A key vault Manager nobody else refers to is freed next. -/
def freeManager (e : Ending) (m : Manager) : Ending :=
  let e := { e with process := { e.process with managers := e.process.managers.erase m.id
                                                objects := e.process.objects.filter (·.id ≠ m.id) } }
  if m.client.isSome then e.clientUnregister m else e

def freeHandle (e : Ending) (h : Handle) : Ending :=
  { e with
    process := e.process.freeHandle h
    nullIterated := e.nullIterated || (e.registriesNull && h.kind ≠ .server &&
      h.createdByPid ≠ e.process.pid && h.manager.iteratesRequestClients) }

def destroyAll (e : Ending) (pclients : List Pclient) : Ending := pclients.foldl destroy e

/-- `PHP_RSHUTDOWN_FUNCTION`: `zend_hash_destroy` goes from the first client to the last. What the
subscribers kept alive has been freed before. -/
def requestShutdown (e : Ending) : Ending :=
  if e.registriesNull then e
  else
    let e := e.destroyAll e.process.requestClients
    { e with process := { e.process with requestClients := [], managers := [] }
             registriesNull := true }

/-- `PHP_GSHUTDOWN_FUNCTION`: `zend_hash_graceful_reverse_destroy` -/
def globalsShutdown (e : Ending) : Ending :=
  let e := e.destroyAll (e.process.persistentClients.map Prod.snd).reverse
  { e with process := { e.process with persistentClients := [] } }

def run (e : Ending) : EndAction → Option Ending
  | .freeManager id => (e.process.findManager id).map e.freeManager
  | .freeHandle id => (e.process.handles.find? (·.id = id)).map e.freeHandle
  | .requestShutdown => some e.requestShutdown
  | .globalsShutdown => some e.globalsShutdown

def Step (e : Ending) (action : EndAction) (e' : Ending) : Prop := e.run action = some e'

end Ending

end Phongo
