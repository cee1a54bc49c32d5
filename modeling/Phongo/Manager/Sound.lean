import Mathlib.Tactic.Common
import Phongo.Manager.Outcome
import Phongo.Manager.Registry

/-! The invariant of a process: its Manager objects own registered clients, and what refers to
them keeps them alive. -/
namespace Phongo
open OrderedTable Transition

/-- The clients `php_phongo_client_reset_once` resets, in its order. -/
def Manager.chain : Manager → List ℕ
  | ⟨_,_,_,_,client,some keyVault⟩ => keyVault.chain ++ client.toList
  | ⟨_,_,_,_,client,none⟩ => client.toList

theorem Manager.mem_chain_self {m : Manager} {client : ℕ} (h : m.client = some client) :
    client ∈ m.chain := by
  cases m with
  | mk id pid hash persistent c keyVault =>
    cases h
    cases keyVault <;> simp [Manager.chain]

theorem Manager.mem_chain_keyVault {m keyVault : Manager} {k : ℕ}
    (h : m.keyVaultClientManager = some keyVault) (hk : keyVault.client = some k) :
    k ∈ m.chain := by
  cases m with
  | mk id pid hash persistent c kv =>
    cases h
    rw [Manager.chain]
    exact List.mem_append_left _ (mem_chain_self hk)

namespace Process

/-- A constructed Manager: its client is registered, and a key vault Manager it refers to owns the
key vault client. -/
structure Owns (s : Process) (m : Manager) (client : ℕ) (record : MongocClient) : Prop where
  client_eq : m.client = some client
  record_eq : s.clients[client]? = some record
  createdIn : record.createdIn = m.createdByPid
  registered : s.Registered m client
  keyVault : ∀ k, m.keyVaultClientManager = some k → record.keyVaultClient = k.client

structure Sound (pids : List ℕ) (s : Process) : Prop extends Tracks pids s where
  objectsMade : ∀ m ∈ s.objects, m.id < s.made
  managersMade : ∀ id ∈ s.managers, id < s.made
  keyVaultAlive : ∀ m ∈ s.objects, ∀ k, m.keyVaultClientManager = some k → k ∈ s.objects
  handleAlive : ∀ h ∈ s.handles, h.manager ∈ s.objects
  owns : ∀ m ∈ s.objects, ∃ client record, s.Owns m client record
  exclusive : ∀ m ∈ s.objects, ∀ m' ∈ s.objects, m.usePersistentClient = false →
    m'.usePersistentClient = false → m.client = m'.client → m.id = m'.id

section
variable {s : Process} {pids : List ℕ} {m : Manager} {client : ℕ} {record : MongocClient}

theorem Owns.lt (h : s.Owns m client record) : client < s.clients.length :=
  (List.getElem?_eq_some_iff.mp h.record_eq).1

theorem Owns.resetClient (h : s.Owns m client record) (c : ℕ) :
    (s.resetClient c).Owns m client record :=
  ⟨h.client_eq,h.record_eq,h.createdIn,h.registered.resetClient c,h.keyVault⟩

theorem Sound.resetClient (h : s.Sound pids) {c : ℕ} (hc : c < s.clients.length) :
    (s.resetClient c).Sound pids :=
  { h.toTracks.resetClient hc with
    objectsMade := h.objectsMade
    managersMade := h.managersMade
    keyVaultAlive := h.keyVaultAlive
    handleAlive := h.handleAlive
    owns := fun m hm => by
      obtain ⟨client,record,ho⟩ := h.owns m hm
      exact ⟨client,record,ho.resetClient c⟩
    exclusive := h.exclusive }

def resetClients (s : Process) (cs : List ℕ) : Process := cs.foldl Process.resetClient s

theorem resetClients_append (s : Process) (cs cs' : List ℕ) :
    s.resetClients (cs ++ cs') = (s.resetClients cs).resetClients cs' := List.foldl_append

theorem resetClients_frame (s : Process) (cs : List ℕ) :
    ∃ persistentClients requestClients calls, s.resetClients cs =
      { s with persistentClients := persistentClients, requestClients := requestClients,
               calls := calls } := by
  induction cs generalizing s with
  | nil => exact ⟨_,_,_,rfl⟩
  | cons c cs ih =>
    obtain ⟨persistentClients,requestClients,calls,h⟩ := ih (s.resetClient c)
    exact ⟨persistentClients,requestClients,calls,h⟩

theorem mem_calls_resetClients {call : ClientCall} (cs : List ℕ) :
    call ∈ (s.resetClients cs).calls ↔ call ∈ s.calls ∨ ∃ c ∈ cs, call = .reset c := by
  induction cs generalizing s with
  | nil => simp [resetClients]
  | cons c cs ih =>
    have hcons : s.resetClients (c::cs) = (s.resetClient c).resetClients cs := rfl
    rw [hcons,ih,mem_calls_resetClient]
    simp only [List.mem_cons,exists_eq_or_imp]
    tauto

theorem Sound.resetClients (h : s.Sound pids) {cs : List ℕ}
    (hcs : ∀ c ∈ cs, c < s.clients.length) : (s.resetClients cs).Sound pids := by
  induction cs generalizing s with
  | nil => exact h
  | cons c cs ih =>
    exact ih (h.resetClient (hcs c List.mem_cons_self))
      fun c' hc' => hcs c' (List.mem_cons_of_mem _ hc')

theorem Sound.chain_lt (h : s.Sound pids) (hm : m ∈ s.objects) :
    ∀ c ∈ m.chain, c < s.clients.length := by
  have hown : ∀ m ∈ s.objects, ∀ c ∈ m.client.toList, c < s.clients.length := fun m hm c hc => by
    obtain ⟨client,record,ho⟩ := h.owns m hm
    rw [ho.client_eq,Option.toList_some,List.mem_singleton] at hc
    exact hc ▸ ho.lt
  induction m using Process.clientResetOnce.induct with
  | case1 id pid hash persistent client keyVault ih =>
    intro c hc
    rw [Manager.chain,List.mem_append] at hc
    rcases hc with hc | hc
    · exact ih (h.keyVaultAlive _ hm _ rfl) c hc
    · exact hown _ hm c hc
  | case2 id pid hash persistent client => exact fun c hc => hown _ hm c hc

/-- On Managers that are alive, the code resets each client of the chain. -/
theorem Sound.clientResetOnce_eq (h : s.Sound pids) (hm : m ∈ s.objects) :
    s.clientResetOnce m = s.resetClients m.chain := by
  have hlast : ∀ m ∈ s.objects, ∀ cs, (∀ c ∈ cs, c < s.clients.length) →
      (s.resetClients cs).resetRegistered m = s.resetClients (cs ++ m.client.toList) := by
    intro m hm cs hcs
    have hs := h.resetClients hcs
    obtain ⟨persistentClients,requestClients,calls,hframe⟩ := resetClients_frame s cs
    have hm' : m ∈ (s.resetClients cs).objects := by rw [hframe]; exact hm
    obtain ⟨client,record,ho⟩ := hs.owns m hm'
    rw [resetRegistered_eq hs.toTracks ho.client_eq ho.registered,ho.client_eq,
      resetClients_append]
    rfl
  induction m using Process.clientResetOnce.induct with
  | case1 id pid hash persistent client keyVault ih =>
    have hk := h.keyVaultAlive _ hm _ rfl
    rw [Process.clientResetOnce,ih hk,hlast _ hm _ (h.chain_lt hk),Manager.chain]
  | case2 id pid hash persistent client =>
    rw [Process.clientResetOnce]
    exact hlast _ hm [] (by simp)

theorem Sound.clientResetOnce (h : s.Sound pids) (hm : m ∈ s.objects) :
    (s.clientResetOnce m).Sound pids := by
  rw [h.clientResetOnce_eq hm]
  exact h.resetClients (h.chain_lt hm)

theorem Sound.resetClientIfPidDiffers (h : s.Sound pids) (pid : ℕ) (hm : m ∈ s.objects) :
    (s.resetClientIfPidDiffers pid m).Sound pids := by
  unfold Process.resetClientIfPidDiffers
  split
  · exact h.clientResetOnce hm
  · exact h

/-- What the reset of a live Manager leaves as it was. -/
theorem Sound.clientResetOnce_frame (h : s.Sound pids) (hm : m ∈ s.objects) :
    ∃ persistentClients requestClients calls, s.clientResetOnce m =
      { s with persistentClients := persistentClients, requestClients := requestClients,
               calls := calls } := by
  rw [h.clientResetOnce_eq hm]
  exact resetClients_frame s _

end

end Process

end Phongo
