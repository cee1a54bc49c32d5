import Mathlib.Tactic.Common
import Phongo.Manager.Sound

/-! Every action of a process, and its fork, keep the invariant. -/
namespace Phongo
open OrderedTable Transition

namespace Process
variable {s : Process} {pids : List ℕ} {m : Manager}

theorem Sound.push (h : s.Sound pids) (call : ClientCall) (hreset : ∀ c, call ≠ .reset c)
    (huse : ∀ c, call = .use c → c < s.clients.length) :
    Sound pids { s with calls := call::s.calls } :=
  { h.toTracks.push hreset huse with
    objectsMade := h.objectsMade
    managersMade := h.managersMade
    keyVaultAlive := h.keyVaultAlive
    handleAlive := h.handleAlive
    owns := fun m hm => by
      obtain ⟨client,record,ho⟩ := h.owns m hm
      exact ⟨client,record,ho.client_eq,ho.record_eq,ho.createdIn,ho.registered,ho.keyVault⟩
    exclusive := h.exclusive }

theorem Sound.addHandle (h : s.Sound pids) (kind : HandleKind) (hm : m ∈ s.objects) :
    (s.addHandle kind m).Sound pids :=
  { h with
    pid_mem := h.pid_mem
    objectsMade := fun o ho => Nat.lt_succ_of_lt (h.objectsMade o ho)
    managersMade := fun id hid => Nat.lt_succ_of_lt (h.managersMade id hid)
    handleAlive := fun handle hh => by
      rcases List.mem_append.mp hh with hh | hh
      · exact h.handleAlive handle hh
      · obtain rfl := List.mem_singleton.mp hh
        exact hm
    owns := fun m hm => by
      obtain ⟨client,record,ho⟩ := h.owns m hm
      exact ⟨client,record,ho.client_eq,ho.record_eq,ho.createdIn,ho.registered,ho.keyVault⟩ }

theorem Sound.useClient (h : s.Sound pids) (hm : m ∈ s.objects) : (s.useClient m).Sound pids := by
  obtain ⟨client,record,ho⟩ := h.owns m hm
  simp only [Process.useClient,ho.client_eq,Option.toList_some,List.map_cons,List.map_nil,
    List.cons_append,List.nil_append]
  exact h.push _ (fun c => by simp) fun c hc => by
    cases hc
    exact ho.lt

theorem Sound.perform (h : s.Sound pids) (hm : m ∈ s.objects) (operation : Operation) :
    (s.perform m operation).Sound pids := by
  cases operation with
  | rejected => exact h
  | execute cursor =>
    cases cursor
    · exact h.useClient hm
    · exact (h.useClient hm).addHandle .cursor hm
  | startSession started =>
    cases started
    · exact h.useClient hm
    · exact (h.useClient hm).addHandle .session hm

theorem findManager_mem {id : ℕ} (h : s.findManager id = some m) : m ∈ s.objects :=
  List.mem_of_find?_eq_some h

/-- An operation goes through an object that is alive, to a Manager that is. -/
theorem Sound.target_mem (h : s.Sound pids) {operation : Operation} {through : Through}
    {createdByPid : ℕ} (ht : s.target operation through = some (createdByPid,m)) :
    m ∈ s.objects := by
  cases through with
  | manager id =>
    obtain ⟨m',hm',he⟩ := Option.map_eq_some_iff.mp ht
    cases he
    exact findManager_mem hm'
  | server id =>
    have hserver : (s.findServer id).map (fun handle => (handle.createdByPid,handle.manager)) =
        some (createdByPid,m) := by
      cases operation with
      | startSession started => simp [target] at ht
      | _ => exact ht
    obtain ⟨handle,hh,he⟩ := Option.map_eq_some_iff.mp hserver
    cases he
    exact h.handleAlive handle (List.mem_of_find?_eq_some hh)

theorem Sound.mem_resetClientIfPidDiffers (h : s.Sound pids) (createdByPid : ℕ)
    (hm : m ∈ s.objects) : m ∈ (s.resetClientIfPidDiffers createdByPid m).objects := by
  unfold Process.resetClientIfPidDiffers
  split
  · obtain ⟨persistentClients,requestClients,calls,hframe⟩ := h.clientResetOnce_frame hm
    rw [hframe]
    exact hm
  · exact hm

theorem Sound.operate (h : s.Sound pids) (createdByPid : ℕ) (hm : m ∈ s.objects)
    (operation : Operation) :
    ((s.resetClientIfPidDiffers createdByPid m).perform m operation).Sound pids :=
  (h.resetClientIfPidDiffers createdByPid hm).perform
    (h.mem_resetClientIfPidDiffers createdByPid hm) operation

theorem Sound.dropHandle (h : s.Sound pids) (handle : Handle) :
    Sound pids { s with handles := s.handles.filter (·.id ≠ handle.id) } :=
  { h with
    pid_mem := h.pid_mem
    handleAlive := fun handle' hh' => h.handleAlive handle' (List.mem_of_mem_filter hh')
    owns := fun m hm => by
      obtain ⟨client,record,ho⟩ := h.owns m hm
      exact ⟨client,record,ho.client_eq,ho.record_eq,ho.createdIn,ho.registered,ho.keyVault⟩ }

theorem Sound.freeHandle (h : s.Sound pids) {handle : Handle} (hh : handle ∈ s.handles) :
    (s.freeHandle handle).Sound pids := by
  have hdrop := h.dropHandle handle
  unfold Process.freeHandle
  dsimp only
  split
  · exact hdrop
  · exact hdrop.resetClientIfPidDiffers _ (h.handleAlive handle hh)
  · exact hdrop.resetClientIfPidDiffers _ (h.handleAlive handle hh)

/-- Objects and request-scoped clients may go as long as what stays refers to neither. -/
theorem Sound.restrict (h : s.Sound pids) (managers : List ℕ) (hmanagers : managers ⊆ s.managers)
    (keep : Manager → Bool)
    (hkeyVault : ∀ o ∈ s.objects, ∀ k, o.keyVaultClientManager = some k → keep k = true)
    (hhandles : ∀ handle ∈ s.handles, keep handle.manager = true) {ps : List Pclient}
    (hsub : ps.Sublist s.requestClients)
    (hps : ∀ o ∈ s.objects, keep o = true → o.usePersistentClient = false →
      ∀ p ∈ s.requestClients, some p.client = o.client → p ∈ ps) :
    Sound pids { s with managers := managers, objects := s.objects.filter keep,
                        requestClients := ps } :=
  { h.toTracks.requestSublist hsub with
    pid_mem := h.pid_mem
    objectsMade := fun o ho => h.objectsMade o (List.mem_of_mem_filter ho)
    managersMade := fun id hid => h.managersMade id (hmanagers hid)
    keyVaultAlive := fun o ho k hk => List.mem_filter.mpr
      ⟨h.keyVaultAlive o (List.mem_of_mem_filter ho) k hk,
        hkeyVault o (List.mem_of_mem_filter ho) k hk⟩
    handleAlive := fun handle hh =>
      List.mem_filter.mpr ⟨h.handleAlive handle hh,hhandles handle hh⟩
    owns := fun o ho => by
      obtain ⟨hmem,hkeep⟩ := List.mem_filter.mp ho
      obtain ⟨client,record,hown⟩ := h.owns o hmem
      refine ⟨client,record,hown.client_eq,hown.record_eq,hown.createdIn,?_,hown.keyVault⟩
      have hreg := hown.registered
      unfold Registered at hreg ⊢
      by_cases hp : o.usePersistentClient = true
      · rw [if_pos hp] at hreg ⊢
        exact hreg
      · rw [if_neg hp] at hreg ⊢
        obtain ⟨p,hpm,hc⟩ := hreg
        exact ⟨p,hps o hmem hkeep (by simpa using hp) p hpm (by rw [hc,hown.client_eq]),hc⟩
    exclusive := fun o ho o' ho' => h.exclusive o (List.mem_of_mem_filter ho) o'
      (List.mem_of_mem_filter ho') }

theorem Sound.pclientDestroy (h : s.Sound pids) (p : Pclient) : (s.pclientDestroy p).Sound pids := by
  unfold Process.pclientDestroy
  split
  · exact h.push _ (fun c => by simp) (fun c hc => by simp at hc)
  · exact h

theorem Sound.freeManager (h : s.Sound pids) (hm : m ∈ s.objects) (hheld : s.isHeld m = false) :
    (s.freeManager m).Sound pids := by
  obtain ⟨client,record,ho⟩ := h.owns m hm
  simp only [isHeld,Bool.or_eq_false_iff,List.any_eq_false] at hheld
  have hkeyVault : ∀ o ∈ s.objects, ∀ k, o.keyVaultClientManager = some k →
      decide (k.id ≠ m.id) = true := fun o ho k hk => by
    have hno := hheld.1 o ho
    simpa [hk] using hno
  have hhandles : ∀ handle ∈ s.handles, decide (handle.manager.id ≠ m.id) = true :=
    fun handle hh => by simpa using hheld.2 handle hh
  have hmanagers : s.managers.erase m.id ⊆ s.managers := List.erase_subset
  unfold Process.freeManager
  simp only [ho.client_eq,Option.isSome_some,if_true]
  unfold Process.clientUnregister
  by_cases hp : m.usePersistentClient = true
  · rw [if_pos hp]
    exact h.restrict _ hmanagers _ hkeyVault hhandles (List.Sublist.refl _)
      (fun _ _ _ _ _ hp _ => hp)
  · rw [if_neg hp]
    dsimp only
    split
    · rename_i p hfind
      refine (h.restrict _ hmanagers _ hkeyVault hhandles List.eraseP_sublist ?_).pclientDestroy p
      intro o hom hne hop q hq hc
      refine (List.mem_eraseP_of_neg ?_).mpr hq
      -- only the Manager that is freed owns this client
      intro he
      have hsame := h.exclusive o hom m hm hop (by simpa using hp)
        (hc.symm.trans (by simpa using he))
      simp [hsame] at hne
    · exact h.restrict _ hmanagers _ hkeyVault hhandles (List.Sublist.refl _)
        (fun _ _ _ _ _ hp _ => hp)

section Construct
variable {Uri : Type} (E : Outside Uri)

def extend (s : Process) (records : List MongocClient) (handshakes : List HandshakeData) :
    Process :=
  { s with clients := s.clients ++ records, handshakes := handshakes }

theorem getElem?_extend (s : Process) {c : ℕ} (records : List MongocClient)
    (handshakes : List HandshakeData) (hc : c < s.clients.length) :
    (s.extend records handshakes).clients[c]? = s.clients[c]? := List.getElem?_append_left hc

theorem Sound.extend (h : s.Sound pids) (records : List MongocClient)
    (hrecords : ∀ record ∈ records, s.Makes record) (handshakes : List HandshakeData) :
    (s.extend records handshakes).Sound pids :=
  { h.toTracks.extendClients (fun record hr k hk => by
      obtain ⟨o,ho,hok⟩ := (hrecords record hr).2 k hk
      obtain ⟨client,_,hown⟩ := h.owns o ho
      rw [hown.client_eq,Option.some.injEq] at hok
      exact hok ▸ hown.lt) handshakes with
    objectsMade := h.objectsMade
    managersMade := h.managersMade
    keyVaultAlive := h.keyVaultAlive
    handleAlive := h.handleAlive
    owns := fun m hm => by
      obtain ⟨client,record,ho⟩ := h.owns m hm
      exact ⟨client,record,ho.client_eq,(getElem?_extend s _ _ ho.lt).trans ho.record_eq,
        ho.createdIn,ho.registered,ho.keyVault⟩
    exclusive := h.exclusive }

theorem Sound.createManager (h : s.Sound pids) : s.createManager.2.Sound pids :=
  { h with
    pid_mem := h.pid_mem
    objectsMade := fun o ho => Nat.lt_succ_of_lt (h.objectsMade o ho)
    managersMade := fun id hid => Nat.lt_succ_of_lt (h.managersMade id hid)
    owns := fun m hm => by
      obtain ⟨client,record,ho⟩ := h.owns m hm
      exact ⟨client,record,ho.client_eq,ho.record_eq,ho.createdIn,ho.registered,ho.keyVault⟩ }

/-- An object that is neither in the registry nor in the store. -/
structure IsFresh (s : Process) (id : ℕ) : Prop where
  managers : id ∉ s.managers
  objects : ∀ o ∈ s.objects, o.id ≠ id

theorem Sound.isFresh (h : s.Sound pids) : s.createManager.2.IsFresh s.made :=
  ⟨fun hm => (h.managersMade _ hm).ne rfl,fun o ho => (h.objectsMade o ho).ne⟩

/-- Freeing an object whose constructor failed does no more than to give up its client. -/
theorem freeManager_fresh (hfresh : s.IsFresh m.id) :
    s.freeManager m = if m.client.isSome then s.clientUnregister m else s := by
  have herase : s.managers.erase m.id = s.managers := List.erase_of_not_mem hfresh.managers
  have hfilter : s.objects.filter (·.id ≠ m.id) = s.objects :=
    List.filter_eq_self.mpr fun o ho => by simpa using hfresh.objects o ho
  simp only [Process.freeManager,herase,hfilter]

theorem clientUnregister_of_notMem
    (h : ∀ p ∈ s.requestClients, some p.client ≠ m.client) : s.clientUnregister m = s := by
  unfold Process.clientUnregister
  split
  · rfl
  · rw [List.find?_eq_none.mpr fun p hp => by simpa using h p hp]

/-- What a constructor makes of a process whose next object is fresh. -/
inductive Constructs (s : Process) (a : ManagerArgs) : Process × Pending → Prop
  | failed (records : List MongocClient) (handshakes : List HandshakeData) (calls : List ClientCall)
      (eg : Pending)
      (hrecords : ∀ record ∈ records, s.Makes record)
      (hcalls : calls = s.calls ∨ records ≠ [] ∧ calls = .destroy s.clients.length::s.calls)
      (hne : eg ≠ []) :
      Constructs s a ({ s.extend records handshakes with calls := calls, made := s.made + 1 },eg)
  | left (hash : Bytes) (keyVault : Option Manager) (handshakes : List HandshakeData)
      (eg : Pending) (hhash : E.makeClientHash s.createManager.2 a [] = (some hash,[]))
      (hpersistent : usePersistentClient a.driverOptions = true)
      (hnone : s.findPersistentClient hash = none)
      (hkeyVault : s.NamesKeyVault true a.driverOptions keyVault) (hne : eg ≠ []) :
      Constructs s a (s.createManager.2.withRegistered handshakes
        (s.createManager.1.withClient hash true s.clients.length keyVault),eg)
  | found (hash : Bytes) (client : ℕ)
      (hhash : E.makeClientHash s.createManager.2 a [] = (some hash,[]))
      (hpersistent : usePersistentClient a.driverOptions = true)
      (hfind : s.findPersistentClient hash = some client) (m : Manager)
      (hm : m = s.createManager.1.withClient hash true client none) :
      Constructs s a ({ s.createManager.2 with managers := s.managers ++ [s.made]
                                               objects := s.objects ++ [m] },[])
  | registered (hash : Bytes) (keyVault : Option Manager) (handshakes : List HandshakeData)
      (hhash : E.makeClientHash s.createManager.2 a [] = (some hash,[]))
      (hnone : usePersistentClient a.driverOptions = true → s.findPersistentClient hash = none)
      (hkeyVault : s.NamesKeyVault (usePersistentClient a.driverOptions) a.driverOptions keyVault)
      (m : Manager)
      (hm : m = s.createManager.1.withClient hash (usePersistentClient a.driverOptions)
        s.clients.length keyVault) :
      Constructs s a ({ s.createManager.2.withRegistered handshakes m with
        managers := s.managers ++ [s.made], objects := s.objects ++ [m] },[])

theorem Sound.ne_length (h : s.Sound pids) {p : Pclient} (hp : p ∈ s.pclients) :
    p.client ≠ s.clients.length := (h.known p hp).ne

@[simp] theorem managers_clientRegister (s : Process) (m : Manager) (client : ℕ) :
    (s.clientRegister m client).managers = s.managers := by
  unfold Process.clientRegister
  dsimp only
  split <;> rfl

@[simp] theorem objects_clientRegister (s : Process) (m : Manager) (client : ℕ) :
    (s.clientRegister m client).objects = s.objects := by
  unfold Process.clientRegister
  dsimp only
  split <;> rfl

theorem register_of_ne {eg : Pending} (hne : eg ≠ []) :
    (⟨s,m,eg⟩ : Initialised).register = (s.freeManager m,eg) := if_pos hne

theorem register_of_nil (h : m.id ∉ s.managers) : (⟨s,m,[]⟩ : Initialised).register =
    ({ s with managers := s.managers ++ [m.id], objects := s.objects ++ [m] },[]) := by
  rw [Initialised.register,if_neg (fun h => h rfl),if_neg h]

/-- A request-scoped client that is given up right after it was registered. -/
theorem clientUnregister_clientRegister (client : ℕ) (hclient : m.client = some client)
    (hpersistent : m.usePersistentClient = false)
    (hfresh : ∀ p ∈ s.requestClients, some p.client ≠ m.client) :
    (s.clientRegister m client).clientUnregister m =
      { s with calls := .destroy client::s.calls } := by
  have hfind : s.requestClients.find? (fun p => some p.client = m.client) = none :=
    List.find?_eq_none.mpr fun p hp => by simpa using hfresh p hp
  have hnew : (some client = m.client) = True := by simp [hclient]
  simp only [Process.clientRegister,Process.clientUnregister,hpersistent,Bool.false_eq_true,
    if_false,List.find?_append,hfind,List.find?_cons,hnew,decide_true,Option.none_or]
  rw [List.eraseP_append_right _ fun p hp => by simpa using hfresh p hp]
  simp [Process.pclientDestroy,hclient]

/-- Freeing an object whose constructor failed before it registered a client. -/
theorem Sound.freeManager_failed (h : s.Sound pids) (records : List MongocClient)
    (handshakes : List HandshakeData) (hid : m.id = s.made)
    (hclient : ∀ c, m.client = some c → c = s.clients.length) :
    (s.createManager.2.extend records handshakes).freeManager m =
      s.createManager.2.extend records handshakes := by
  have hfresh : (s.createManager.2.extend records handshakes).IsFresh m.id := by
    rw [hid]
    exact ⟨h.isFresh.managers,h.isFresh.objects⟩
  rw [freeManager_fresh hfresh]
  cases hc : m.client with
  | none => rfl
  | some c =>
    obtain rfl := hclient c hc
    simp only [Option.isSome_some,if_true]
    refine clientUnregister_of_notMem fun p hp => ?_
    rw [hc]
    simpa using h.ne_length (List.mem_append_right _ hp)

theorem construct_constructs (h : s.Sound pids) (a : ManagerArgs) :
    Constructs E s a (E.construct s a) := by
  have hfresh := h.isFresh
  have hleaves := managerInit_leaves E s.createManager.2 (m:=s.createManager.1) a rfl rfl
  have hold : ∀ p ∈ s.requestClients, some p.client ≠ some s.clients.length := fun p hp => by
    simpa using h.ne_length (List.mem_append_right _ hp)
  unfold Outside.construct
  generalize E.managerInit s.createManager.2 s.createManager.1 a = r at hleaves
  cases hleaves with
  | failed records handshakes m' eg hrecords hid hclient hne =>
    have hfree := h.freeManager_failed records handshakes hid hclient
    rw [register_of_ne hne]
    rw [Process.extend] at hfree
    rw [hfree]
    exact .failed records handshakes s.calls eg hrecords (Or.inl rfl) hne
  | found hash client hhash hpersistent hfind =>
    rw [register_of_nil (m:=s.createManager.1.withClient hash true client none) hfresh.managers]
    exact .found hash client hhash hpersistent hfind _ rfl
  | registered hash keyVault handshakes eg hhash hnone hkeyVault m' hm =>
    have hid : m'.id = s.made := by rw [hm]; rfl
    have hclient : m'.client = some s.clients.length := by rw [hm]; rfl
    have hpersistent : m'.usePersistentClient = usePersistentClient a.driverOptions := by
      rw [hm]; rfl
    have hmanagers : (s.createManager.2.withRegistered handshakes m').managers = s.managers :=
      managers_clientRegister _ _ _
    have hobjects : (s.createManager.2.withRegistered handshakes m').objects = s.objects :=
      objects_clientRegister _ _ _
    by_cases hne : eg = []
    · subst hne
      rw [register_of_nil (by rw [hmanagers,hid]; exact hfresh.managers),hmanagers,hid,hobjects]
      exact .registered hash keyVault handshakes hhash hnone hkeyVault m' hm
    · have hfresh' : (s.createManager.2.withRegistered handshakes m').IsFresh m'.id := by
        rw [hid]
        exact ⟨hmanagers ▸ hfresh.managers,hobjects ▸ hfresh.objects⟩
      rw [register_of_ne hne,freeManager_fresh hfresh',hclient,Option.isSome_some,if_pos rfl]
      by_cases hp : usePersistentClient a.driverOptions = true
      · rw [hp] at hm hpersistent
        rw [Process.clientUnregister,if_pos hpersistent]
        subst hm
        exact .left hash keyVault handshakes eg hhash hp (hnone hp) (hp ▸ hkeyVault) hne
      · have hp' : m'.usePersistentClient = false := by
          rw [hpersistent]
          simpa using hp
        rw [Process.withRegistered,clientUnregister_clientRegister
          s.createManager.2.clients.length hclient hp' (by rw [hclient]; exact hold)]
        refine .failed [⟨s.pid,m'.keyVaultClientManager.bind (·.client)⟩] handshakes _ eg
          (fun record hr => ?_) (Or.inr ⟨List.cons_ne_nil _ _,rfl⟩) hne
        obtain rfl := List.mem_singleton.mp hr
        refine ⟨rfl,fun k hk => ?_⟩
        obtain ⟨o,ho,hk⟩ := Option.bind_eq_some_iff.mp hk
        rw [hm] at ho
        exact ⟨o,hkeyVault.mem o ho,hk⟩

theorem Registered.clientRegister {o : Manager} {c client : ℕ} (hreg : s.Registered o c)
    (hnone : m.usePersistentClient = true →
      find? s.persistentClients (m.clientHash.getD []) = none) :
    (s.clientRegister m client).Registered o c := by
  unfold Registered at hreg ⊢
  unfold Process.clientRegister
  dsimp only
  by_cases ho : o.usePersistentClient = true
  · rw [if_pos ho] at hreg ⊢
    obtain ⟨hash,p,hhash,hfind,hc⟩ := hreg
    refine ⟨hash,p,hhash,?_,hc⟩
    split
    · rename_i hm
      rw [find?_update_of_ne]
      · exact hfind
      · rintro rfl
        rw [hnone hm] at hfind
        cases hfind
    · exact hfind
  · rw [if_neg ho] at hreg ⊢
    obtain ⟨p,hp,hc⟩ := hreg
    split
    · exact ⟨p,hp,hc⟩
    · exact ⟨p,List.mem_append_left _ hp,hc⟩

theorem registered_clientRegister {client : ℕ} {hash : Bytes} (hhash : m.clientHash = some hash) :
    (s.clientRegister m client).Registered m client := by
  unfold Registered Process.clientRegister
  dsimp only
  by_cases hm : m.usePersistentClient = true
  · simp [hm,hhash]
  · simp [hm]

@[simp] theorem clients_clientRegister (s : Process) (m : Manager) (client : ℕ) :
    (s.clientRegister m client).clients = s.clients := by
  unfold Process.clientRegister
  dsimp only
  split <;> rfl

@[simp] theorem calls_clientRegister (s : Process) (m : Manager) (client : ℕ) :
    (s.clientRegister m client).calls = s.calls := by
  unfold Process.clientRegister
  dsimp only
  split <;> rfl

@[simp] theorem pid_clientRegister (s : Process) (m : Manager) (client : ℕ) :
    (s.clientRegister m client).pid = s.pid := by
  unfold Process.clientRegister
  dsimp only
  split <;> rfl

@[simp] theorem handles_clientRegister (s : Process) (m : Manager) (client : ℕ) :
    (s.clientRegister m client).handles = s.handles := by
  unfold Process.clientRegister
  dsimp only
  split <;> rfl

@[simp] theorem made_clientRegister (s : Process) (m : Manager) (client : ℕ) :
    (s.clientRegister m client).made = s.made := by
  unfold Process.clientRegister
  dsimp only
  split <;> rfl

theorem managers_withRegistered (s : Process) (handshakes : List HandshakeData) (m : Manager) :
    (s.withRegistered handshakes m).managers = s.managers := managers_clientRegister _ _ _

theorem objects_withRegistered (s : Process) (handshakes : List HandshakeData) (m : Manager) :
    (s.withRegistered handshakes m).objects = s.objects := objects_clientRegister _ _ _

def newRecord (s : Process) (m : Manager) : MongocClient :=
  ⟨s.pid,m.keyVaultClientManager.bind (·.client)⟩

theorem Sound.withRegistered (h : s.Sound pids) (handshakes : List HandshakeData)
    {hash rest : Bytes} (hhash : m.clientHash = some hash)
    (hrest : hash = hashPrefix s.pid ++ rest)
    (hnone : m.usePersistentClient = true → s.findPersistentClient hash = none)
    (hkeyVault : ∀ k, m.keyVaultClientManager = some k → k ∈ s.objects) :
    (s.withRegistered handshakes m).Sound pids := by
  have hext := h.extend [s.newRecord m] (fun record hr => by
    obtain rfl := List.mem_singleton.mp hr
    refine ⟨rfl,fun k hk => ?_⟩
    obtain ⟨o,ho,hk⟩ := Option.bind_eq_some_iff.mp hk
    exact ⟨o,hkeyVault o ho,hk⟩) handshakes
  have hnone' : m.usePersistentClient = true →
      find? s.persistentClients (m.clientHash.getD []) = none := fun hp => by
    have hf := hnone hp
    rw [findPersistentClient,Option.map_eq_none_iff] at hf
    simpa [hhash] using hf
  have htracks := hext.toTracks.clientRegister (m:=m) s.clients.length
    (s.newRecord m) List.getElem?_concat_length rfl (fun p hp => h.ne_length hp)
    (fun hc => (h.resetKnown _ hc).ne rfl)
    (fun hp => ⟨hash,rest,hhash,(by simpa [hhash] using hnone' hp :
      find? s.persistentClients hash = none),hrest⟩)
  exact { htracks with
    objectsMade := by simpa [Process.withRegistered] using h.objectsMade
    managersMade := by simpa [Process.withRegistered] using h.managersMade
    keyVaultAlive := by simpa [Process.withRegistered] using h.keyVaultAlive
    handleAlive := by simpa [Process.withRegistered] using h.handleAlive
    owns := fun o ho => by
      have ho' : o ∈ s.objects := by simpa [Process.withRegistered] using ho
      obtain ⟨client,record,hown⟩ := hext.owns o ho'
      have hrecord : (s.withRegistered handshakes m).clients[client]? = some record := by
        rw [Process.withRegistered,clients_clientRegister]
        exact hown.record_eq
      exact ⟨client,record,hown.client_eq,hrecord,
        hown.createdIn,hown.registered.clientRegister hnone',hown.keyVault⟩
    exclusive := by simpa [Process.withRegistered] using h.exclusive }

theorem Owns.of_withRegistered (s : Process) (handshakes : List HandshakeData) {hash : Bytes}
    (hhash : m.clientHash = some hash) (hclient : m.client = some s.clients.length)
    (hpid : m.createdByPid = s.pid) :
    (s.withRegistered handshakes m).Owns m s.clients.length (s.newRecord m) :=
  ⟨hclient,by simp [Process.withRegistered,newRecord],hpid.symm,registered_clientRegister hhash,
    fun k hk => by simp [newRecord,hk]⟩

/-- The constructed object joins the registry of Managers and the store. -/
theorem Sound.addObject (h : s.Sound pids) {client : ℕ} {record : MongocClient}
    (hid : m.id < s.made) (hown : s.Owns m client record)
    (hkeyVault : ∀ k, m.keyVaultClientManager = some k → k ∈ s.objects)
    (hexclusive : m.usePersistentClient = false → ∀ o ∈ s.objects, o.client ≠ m.client) :
    Sound pids { s with managers := s.managers ++ [m.id], objects := s.objects ++ [m] } :=
  { h with
    pid_mem := h.pid_mem
    objectsMade := fun o ho => by
      rcases List.mem_append.mp ho with ho | ho
      · exact h.objectsMade o ho
      · obtain rfl := List.mem_singleton.mp ho
        exact hid
    managersMade := fun id hid' => by
      rcases List.mem_append.mp hid' with hid' | hid'
      · exact h.managersMade id hid'
      · obtain rfl := List.mem_singleton.mp hid'
        exact hid
    keyVaultAlive := fun o ho k hk => by
      rcases List.mem_append.mp ho with ho | ho
      · exact List.mem_append_left _ (h.keyVaultAlive o ho k hk)
      · obtain rfl := List.mem_singleton.mp ho
        exact List.mem_append_left _ (hkeyVault k hk)
    handleAlive := fun handle hh => List.mem_append_left _ (h.handleAlive handle hh)
    owns := fun o ho => by
      rcases List.mem_append.mp ho with ho | ho
      · obtain ⟨client,record,ho⟩ := h.owns o ho
        exact ⟨client,record,ho.client_eq,ho.record_eq,ho.createdIn,ho.registered,ho.keyVault⟩
      · obtain rfl := List.mem_singleton.mp ho
        exact ⟨client,record,hown.client_eq,hown.record_eq,hown.createdIn,hown.registered,
          hown.keyVault⟩
    exclusive := fun o ho o' ho' hp hp' hc => by
      rcases List.mem_append.mp ho with hold | hnew <;>
        rcases List.mem_append.mp ho' with hold' | hnew'
      · exact h.exclusive o hold o' hold' hp hp' hc
      · obtain rfl := List.mem_singleton.mp hnew'
        exact absurd hc (hexclusive hp' o hold)
      · obtain rfl := List.mem_singleton.mp hnew
        exact absurd hc.symm (hexclusive hp o' hold')
      · rw [List.mem_singleton.mp hnew,List.mem_singleton.mp hnew'] }

/-- The persistent client under a hash of this process was made by it. -/
theorem Sound.owns_found (h : s.Sound pids) {hash rest : Bytes} {client : ℕ}
    (hrest : hash = hashPrefix s.pid ++ rest) (hfind : s.findPersistentClient hash = some client)
    (hhash : m.clientHash = some hash) (hpersistent : m.usePersistentClient = true)
    (hclient : m.client = some client) (hpid : m.createdByPid = s.pid)
    (hkeyVault : m.keyVaultClientManager = none) : ∃ record, s.Owns m client record := by
  obtain ⟨p,hp,rfl⟩ := Option.map_eq_some_iff.mp hfind
  have hmem := mem_of_find?_eq_some _ _ _ hp
  have hlt := h.known p (List.mem_append_left _ (List.mem_map_of_mem hmem))
  have hrecord := List.getElem?_eq_getElem hlt
  obtain ⟨rest',hrest'⟩ := h.hash _ hmem _ hrecord
  refine ⟨_,hclient,hrecord,?_,?_,by simp [hkeyVault]⟩
  · rw [hpid]
    exact hashPrefix_injective (hrest'.symm.trans hrest)
  · rw [Registered,if_pos hpersistent]
    exact ⟨hash,p,hhash,hp,rfl⟩

theorem Sound.construct (h : s.Sound pids) (a : ManagerArgs) :
    (E.construct s a).1.Sound pids := by
  have hc := construct_constructs E h a
  have hcreate := h.createManager
  generalize E.construct s a = r at hc
  cases hc with
  | failed records handshakes calls eg hrecords hcalls hne =>
    have hext := hcreate.extend records hrecords handshakes
    rcases hcalls with rfl | ⟨-,rfl⟩
    · exact hext
    · exact hext.push (.destroy _) (fun c => by simp) (fun c hc => by simp at hc)
  | left hash keyVault handshakes eg hhash hpersistent hnone hkeyVault hne =>
    obtain ⟨rest,hrest⟩ := (makeClientHash_eq_some E hhash).2
    exact hcreate.withRegistered
      (m:=s.createManager.1.withClient hash true s.clients.length keyVault) handshakes rfl hrest
      (fun _ => hnone) (fun k hk => hkeyVault.mem k hk)
  | found hash client hhash hpersistent hfind m hm =>
    obtain ⟨rest,hrest⟩ := (makeClientHash_eq_some E hhash).2
    obtain ⟨record,hown⟩ := hcreate.owns_found (m:=m) hrest hfind (by rw [hm]; rfl)
      (by rw [hm]; rfl) (by rw [hm]; rfl) (by rw [hm]; rfl) (by rw [hm]; rfl)
    have hid : m.id = s.made := by rw [hm]; rfl
    have hadd := hcreate.addObject (m:=m) (hid ▸ Nat.lt_succ_self _) hown
      (fun k hk => by rw [hm] at hk; cases hk) (fun hp => by rw [hm] at hp; cases hp)
    rw [hid] at hadd
    exact hadd
  | registered hash keyVault handshakes hhash hnone hkeyVault m hm =>
    obtain ⟨rest,hrest⟩ := (makeClientHash_eq_some E hhash).2
    have hid : m.id = s.made := by rw [hm]; rfl
    have hclient : m.client = some s.clients.length := by rw [hm]; rfl
    have hm' : m.clientHash = some hash := by rw [hm]; rfl
    have hreg := hcreate.withRegistered handshakes hm' hrest
      (by rw [hm]; exact hnone) (by rw [hm]; exact hkeyVault.mem)
    have hadd := hreg.addObject (m:=m)
      (by simp [Process.withRegistered,hid,Process.createManager])
      (Owns.of_withRegistered s.createManager.2 handshakes hm' hclient (by rw [hm]; rfl))
      (fun k hk => by
        rw [hm] at hk
        rw [Process.withRegistered,objects_clientRegister]
        exact hkeyVault.mem k hk)
      (fun _ o ho hc => by
        rw [objects_withRegistered] at ho
        obtain ⟨client,record,hown⟩ := h.owns o ho
        rw [hown.client_eq,hclient,Option.some.injEq] at hc
        exact hown.lt.ne hc)
    rw [hid,managers_withRegistered,objects_withRegistered] at hadd
    exact hadd

theorem getElem?_construct (h : s.Sound pids) (a : ManagerArgs) {c : ℕ} (hc : c < s.clients.length) :
    (E.construct s a).1.clients[c]? = s.clients[c]? := by
  have hconstructs := construct_constructs E h a
  generalize E.construct s a = r at hconstructs
  cases hconstructs with
  | failed records handshakes calls eg hrecords hcalls hne => exact List.getElem?_append_left hc
  | left hash keyVault handshakes eg hhash hpersistent hnone hkeyVault hne =>
    rw [Process.withRegistered,clients_clientRegister]
    exact List.getElem?_append_left hc
  | found hash client hhash hpersistent hfind m hm => rfl
  | registered hash keyVault handshakes hhash hnone hkeyVault m hm =>
    dsimp only
    rw [Process.withRegistered,clients_clientRegister]
    exact List.getElem?_append_left hc

theorem made_construct (h : s.Sound pids) (a : ManagerArgs) :
    (E.construct s a).1.pid = s.pid ∧ (E.construct s a).1.made = s.made + 1 := by
  have hconstructs := construct_constructs E h a
  generalize E.construct s a = r at hconstructs
  cases hconstructs with
  | failed records handshakes calls eg hrecords hcalls hne => exact ⟨rfl,rfl⟩
  | left hash keyVault handshakes eg hhash hpersistent hnone hkeyVault hne =>
    exact ⟨pid_clientRegister _ _ _,made_clientRegister _ _ _⟩
  | found hash client hhash hpersistent hfind m hm => exact ⟨rfl,rfl⟩
  | registered hash keyVault handshakes hhash hnone hkeyVault m hm =>
    exact ⟨pid_clientRegister _ _ _,made_clientRegister _ _ _⟩

end Construct

theorem Sound.mono (h : s.Sound pids) {pids' : List ℕ} (hsub : pids ⊆ pids') : s.Sound pids' :=
  { h with
    pid_mem := hsub h.pid_mem
    lastReset := fun p hp => (h.lastReset p hp).imp id (hsub ·) }

/-- The child has reset nothing, and its pid marks no pclient. -/
theorem Sound.fork (h : s.Sound pids) {child : ℕ} (hzero : child ≠ 0) (hchild : child ∉ pids) :
    (s.fork child).Sound (pids ++ [child]) :=
  { h.mono (List.subset_append_left pids [child]) with
    pid_mem := by simp [Process.fork]
    pid_ne_zero := hzero
    reset_iff := fun p hp => by
      refine ⟨fun hc => absurd hc List.not_mem_nil,fun hlast => ?_⟩
      have hlast : p.lastResetByPid = child := hlast
      rcases h.lastReset p hp with hz | hmem
      · exact absurd (hlast.symm.trans hz) hzero
      · exact absurd (hlast ▸ hmem) hchild
    resetKnown := fun c hc => absurd hc List.not_mem_nil
    resetOnce := fun c => Nat.zero_le 1
    useKnown := fun c hc => absurd hc List.not_mem_nil
    owns := fun m hm => by
      obtain ⟨client,record,ho⟩ := h.owns m hm
      exact ⟨client,record,ho.client_eq,ho.record_eq,ho.createdIn,ho.registered,ho.keyVault⟩ }

theorem Sound.start {pid : ℕ} (hpid : pid ≠ 0) : (Process.start pid).Sound [pid] := by
  refine ⟨⟨by simp [Process.start],hpid,?_,?_,?_,?_,?_,?_,?_,?_,?_,?_⟩,?_,?_,?_,?_,?_,?_⟩
  all_goals simp [Process.start,pclients]

theorem Sound.run {Uri : Type} (h : s.Sound pids) {action : Action Uri} {s' : Process}
    (hrun : s.run action = some s') : s'.Sound pids := by
  cases action with
  | construct E a =>
    cases hrun
    exact h.construct E a
  | freeManager id =>
    simp only [Process.run] at hrun
    split at hrun
    · rename_i m hfind
      split at hrun
      · cases hrun
      · rename_i hheld
        cases hrun
        exact h.freeManager (findManager_mem hfind) (by simpa using hheld)
    · cases hrun
  | getServer id =>
    obtain ⟨m,hfind,rfl⟩ := Option.map_eq_some_iff.mp hrun
    exact h.addHandle .server (findManager_mem hfind)
  | operate through operation =>
    simp only [Process.run] at hrun
    split at hrun
    · rename_i createdByPid m htarget
      cases hrun
      exact h.operate createdByPid (h.target_mem htarget) operation
    · cases hrun
  | freeHandle id =>
    obtain ⟨handle,hfind,rfl⟩ := Option.map_eq_some_iff.mp hrun
    exact h.freeHandle (List.mem_of_find?_eq_some hfind)

/-- What everything but a construction leaves as it was. -/
structure Frame (s s' : Process) : Prop where
  pid : s'.pid = s.pid
  made : s.made ≤ s'.made
  clients : s'.clients = s.clients
  objects : s'.objects ⊆ s.objects
  persistent : s'.findPersistentClient = s.findPersistentClient

section Frame
variable {s' s'' : Process}

theorem Frame.refl (s : Process) : s.Frame s :=
  ⟨rfl,le_rfl,rfl,List.Subset.refl _,rfl⟩

theorem Frame.trans (h : s.Frame s') (h' : s'.Frame s'') : s.Frame s'' :=
  ⟨h'.pid.trans h.pid,h.made.trans h'.made,h'.clients.trans h.clients,
    List.Subset.trans h'.objects h.objects,h'.persistent.trans h.persistent⟩

theorem frame_resetClient (s : Process) (client : ℕ) : s.Frame (s.resetClient client) := by
  refine ⟨rfl,le_rfl,rfl,List.Subset.refl _,?_⟩
  funext hash
  simp only [Process.findPersistentClient,Process.resetClient,find?_mapValues,Option.map_map]
  cases find? s.persistentClients hash with
  | none => rfl
  | some p => simp

theorem frame_resetClients (s : Process) (cs : List ℕ) : s.Frame (s.resetClients cs) := by
  induction cs generalizing s with
  | nil => exact Frame.refl s
  | cons c cs ih => exact (frame_resetClient s c).trans (ih (s.resetClient c))

theorem Sound.frame_resetClientIfPidDiffers (h : s.Sound pids) (pid : ℕ) (hm : m ∈ s.objects) :
    s.Frame (s.resetClientIfPidDiffers pid m) := by
  unfold Process.resetClientIfPidDiffers
  split
  · rw [h.clientResetOnce_eq hm]
    exact frame_resetClients s _
  · exact Frame.refl s

theorem frame_perform (s : Process) (m : Manager) (operation : Operation) :
    s.Frame (s.perform m operation) := by
  cases operation with
  | rejected => exact Frame.refl s
  | execute cursor =>
    cases cursor with
    | false => exact ⟨rfl,le_rfl,rfl,List.Subset.refl _,rfl⟩
    | true => exact ⟨rfl,Nat.le_succ _,rfl,List.Subset.refl _,rfl⟩
  | startSession started =>
    cases started with
    | false => exact ⟨rfl,le_rfl,rfl,List.Subset.refl _,rfl⟩
    | true => exact ⟨rfl,Nat.le_succ _,rfl,List.Subset.refl _,rfl⟩

theorem frame_freeManager (s : Process) (m : Manager) : s.Frame (s.freeManager m) := by
  have hobjects : s.objects.filter (·.id ≠ m.id) ⊆ s.objects := List.filter_subset_self _
  unfold Process.freeManager Process.clientUnregister Process.pclientDestroy
  dsimp only
  split
  · split
    · exact ⟨rfl,le_rfl,rfl,hobjects,rfl⟩
    · split
      · split <;> exact ⟨rfl,le_rfl,rfl,hobjects,rfl⟩
      · exact ⟨rfl,le_rfl,rfl,hobjects,rfl⟩
  · exact ⟨rfl,le_rfl,rfl,hobjects,rfl⟩

theorem Sound.frame_freeHandle (h : s.Sound pids) {handle : Handle} (hh : handle ∈ s.handles) :
    s.Frame (s.freeHandle handle) := by
  have hdrop := h.dropHandle handle
  have hframe : s.Frame { s with handles := s.handles.filter (·.id ≠ handle.id) } :=
    ⟨rfl,le_rfl,rfl,List.Subset.refl _,rfl⟩
  have hreset := hframe.trans
    (hdrop.frame_resetClientIfPidDiffers handle.createdByPid (h.handleAlive handle hh))
  unfold Process.freeHandle
  dsimp only
  split
  · exact hframe
  · exact hreset
  · exact hreset

theorem Sound.run_cases {Uri : Type} (h : s.Sound pids) {action : Action Uri}
    (hrun : s.run action = some s') :
    (∃ E a, action = .construct E a ∧ s' = (E.construct s a).1) ∨
      (∀ E a, action ≠ .construct E a) ∧ s.Frame s' := by
  cases action with
  | construct E a =>
    cases hrun
    exact Or.inl ⟨E,a,rfl,rfl⟩
  | freeManager id =>
    refine Or.inr ⟨fun E a => by simp,?_⟩
    simp only [Process.run] at hrun
    split at hrun
    · split at hrun
      · cases hrun
      · cases hrun
        exact frame_freeManager s _
    · cases hrun
  | getServer id =>
    obtain ⟨m,-,rfl⟩ := Option.map_eq_some_iff.mp hrun
    exact Or.inr ⟨fun E a => by simp,rfl,Nat.le_succ _,rfl,List.Subset.refl _,rfl⟩
  | operate through operation =>
    refine Or.inr ⟨fun E a => by simp,?_⟩
    simp only [Process.run] at hrun
    split at hrun
    · rename_i createdByPid m htarget
      cases hrun
      exact (h.frame_resetClientIfPidDiffers createdByPid (h.target_mem htarget)).trans
        (frame_perform _ m operation)
    · cases hrun
  | freeHandle id =>
    obtain ⟨handle,hfind,rfl⟩ := Option.map_eq_some_iff.mp hrun
    exact Or.inr ⟨fun E a => by simp,h.frame_freeHandle (List.mem_of_find?_eq_some hfind)⟩

end Frame

end Process

namespace World
variable {w w' : World} {Uri : Type}

structure Sound (w : World) : Prop where
  processes : ∀ s ∈ w.processes, s.Sound w.pids

theorem findProcess_mem {pid : ℕ} {s : Process} (h : w.findProcess pid = some s) :
    s ∈ w.processes ∧ s.pid = pid :=
  ⟨List.mem_of_find?_eq_some h,by simpa using List.find?_some h⟩

/-- What an event does to the processes: one takes an action, one forks, or one is gone. -/
theorem step_cases {e : Event Uri} (h : w.Step e w') :
    (∃ pid action s s', e = .act pid action ∧ w.findProcess pid = some s ∧
      s.run action = some s' ∧ s' ∈ w'.processes ∧ w'.pids = w.pids ∧
      ∀ t ∈ w'.processes, t = s' ∨ t ∈ w.processes ∧ t.pid ≠ pid) ∨
    (∃ parent child s, e = .fork parent child ∧ w.findProcess parent = some s ∧ child ≠ 0 ∧
      child ∉ w.pids ∧ w' = ⟨w.processes ++ [s.fork child],w.pids ++ [child]⟩) ∨
    (∃ pid, e = .exit pid ∧ w' = { w with processes := w.processes.filter (·.pid ≠ pid) }) := by
  cases e with
  | act pid action =>
    refine Or.inl ?_
    simp only [Step,World.run] at h
    split at h
    · rename_i s' hs
      obtain ⟨s,hfind,hrun⟩ := Option.bind_eq_some_iff.mp hs
      cases h
      obtain ⟨hmem,hpid⟩ := findProcess_mem hfind
      refine ⟨pid,action,s,s',rfl,hfind,hrun,List.mem_map.mpr ⟨s,hmem,if_pos hpid⟩,rfl,?_⟩
      intro t ht
      obtain ⟨t',ht',rfl⟩ := List.mem_map.mp ht
      split
      · exact Or.inl rfl
      · rename_i hne
        exact Or.inr ⟨ht',hne⟩
    · cases h
  | fork parent child =>
    refine Or.inr (Or.inl ?_)
    simp only [Step,World.run] at h
    split at h
    · rename_i s hfind
      split at h
      · cases h
      · rename_i hnew
        cases h
        rw [not_or] at hnew
        exact ⟨parent,child,s,rfl,hfind,hnew.1,hnew.2,rfl⟩
    · cases h
  | exit pid =>
    cases h
    exact Or.inr (Or.inr ⟨pid,rfl,rfl⟩)

theorem Sound.step {e : Event Uri} (h : w.Sound) (hstep : w.Step e w') : w'.Sound := by
  rcases step_cases hstep with ⟨pid,action,s,s',-,hfind,hrun,-,hpids,hmem⟩ |
    ⟨parent,child,s,-,hfind,hzero,hnew,rfl⟩ | ⟨pid,-,rfl⟩
  · refine ⟨fun t ht => ?_⟩
    rw [hpids]
    rcases hmem t ht with rfl | ⟨ht,-⟩
    · exact (h.processes s (findProcess_mem hfind).1).run hrun
    · exact h.processes t ht
  · refine ⟨fun t ht => ?_⟩
    rcases List.mem_append.mp ht with ht | ht
    · exact (h.processes t ht).mono (List.subset_append_left _ _)
    · obtain rfl := List.mem_singleton.mp ht
      exact (h.processes s (findProcess_mem hfind).1).fork hzero hnew
  · exact ⟨fun t ht => h.processes t (List.mem_of_mem_filter ht)⟩

theorem Sound.start {pid : ℕ} (hpid : pid ≠ 0) : (World.start pid).Sound := by
  refine ⟨fun s hs => ?_⟩
  obtain rfl := List.mem_singleton.mp hs
  exact Process.Sound.start hpid

/-- The invariant over every tree of forks and every interleaving. -/
theorem sound_of_reaches {pid : ℕ} {ok : World → Event Uri → Prop} (hpid : pid ≠ 0)
    (h : Reaches World.Step ok (World.start pid) w) : w.Sound :=
  h.invariant (I:=World.Sound) (fun _ _ _ hs _ hstep => hs.step hstep) (Sound.start hpid)

end World

end Phongo
