import Mathlib.Tactic.Common
import Phongo.Manager.Steps

/-! The age of clients: the registries are ordered by it, and the clients a process inherited are
older than its own. -/
namespace Phongo
open OrderedTable Transition

/-- What identifies a pclient whether or not its client was reset. -/
def Pclient.registration (p : Pclient) : ℕ × ℕ := (p.client,p.createdByPid)

@[simp] theorem Pclient.registration_resetOnce (p : Pclient) (pid : ℕ) :
    (p.resetOnce pid).1.registration = p.registration := by
  unfold resetOnce
  split <;> rfl

namespace Process

structure Ages (s : Process) : Prop where
  known : ∀ p ∈ s.pclients, p.client < s.clients.length
  clientsNodup : (s.pclients.map (·.client)).Nodup
  keyVaultOlder : ∀ c (record : MongocClient) k, s.clients[c]? = some record →
    record.keyVaultClient = some k → k < c
  ownLater : ∀ (c d : ℕ) (record record' : MongocClient), c < d → s.clients[c]? = some record →
    s.clients[d]? = some record' → record.createdIn = s.pid → record'.createdIn = s.pid
  creator : ∀ p ∈ s.pclients, ∀ record, s.clients[p.client]? = some record →
    record.createdIn = p.createdByPid
  persistentOrder : (s.persistentClients.map (·.2.client)).Pairwise (· < ·)
  requestOrder : (s.requestClients.map (·.client)).Pairwise (· < ·)
  alive : ∀ p ∈ s.pclients, ClientCall.destroy p.client ∉ s.calls

/-- Nothing but resets and uses has happened to the clients. -/
structure SameClients (s s' : Process) : Prop where
  pid : s'.pid = s.pid
  clients : s'.clients = s.clients
  persistent : s'.persistentClients.map (fun e => e.2.registration) =
    s.persistentClients.map (fun e => e.2.registration)
  request : s'.requestClients.map Pclient.registration = s.requestClients.map Pclient.registration
  destroyed : ∀ c, ClientCall.destroy c ∈ s'.calls ↔ ClientCall.destroy c ∈ s.calls

section
variable {s s' s'' : Process} {pids : List ℕ} {m : Manager}

theorem SameClients.refl (s : Process) : s.SameClients s := ⟨rfl,rfl,rfl,rfl,fun _ => Iff.rfl⟩

theorem SameClients.trans (h : s.SameClients s') (h' : s'.SameClients s'') : s.SameClients s'' :=
  ⟨h'.pid.trans h.pid,h'.clients.trans h.clients,h'.persistent.trans h.persistent,
    h'.request.trans h.request,fun c => (h'.destroyed c).trans (h.destroyed c)⟩

theorem SameClients.pclients (h : s.SameClients s') :
    s'.pclients.map Pclient.registration = s.pclients.map Pclient.registration := by
  have hpersistent := h.persistent
  simp only [Process.pclients,List.map_append,List.map_map,h.request]
  exact congrArg (· ++ s.requestClients.map Pclient.registration) hpersistent

theorem Ages.of_same (h : s.Ages) (hsame : s.SameClients s') : s'.Ages := by
  have hmem : ∀ p ∈ s'.pclients, ∃ q ∈ s.pclients, q.registration = p.registration := by
    intro p hp
    have hm := List.mem_map_of_mem (f:=Pclient.registration) hp
    rw [hsame.pclients] at hm
    exact List.mem_map.mp hm
  have hclients : s'.pclients.map (·.client) = s.pclients.map (·.client) := by
    have hfst := congrArg (List.map Prod.fst) hsame.pclients
    simpa [Function.comp_def,Pclient.registration] using hfst
  have hpersistent : s'.persistentClients.map (·.2.client) = s.persistentClients.map (·.2.client) := by
    have hfst := congrArg (List.map Prod.fst) hsame.persistent
    simpa [Function.comp_def,Pclient.registration] using hfst
  have hrequest : s'.requestClients.map (·.client) = s.requestClients.map (·.client) := by
    have hfst := congrArg (List.map Prod.fst) hsame.request
    simpa [Function.comp_def,Pclient.registration] using hfst
  refine ⟨?_,?_,?_,?_,?_,?_,?_,?_⟩
  · intro p hp
    obtain ⟨q,hq,he⟩ := hmem p hp
    rw [hsame.clients,← (Prod.mk.inj he).1]
    exact h.known q hq
  · rw [hclients]
    exact h.clientsNodup
  · rw [hsame.clients]
    exact h.keyVaultOlder
  · rw [hsame.clients,hsame.pid]
    exact h.ownLater
  · intro p hp record hrecord
    obtain ⟨q,hq,he⟩ := hmem p hp
    rw [hsame.clients,← (Prod.mk.inj he).1] at hrecord
    rw [← (Prod.mk.inj he).2]
    exact h.creator q hq record hrecord
  · rw [hpersistent]
    exact h.persistentOrder
  · rw [hrequest]
    exact h.requestOrder
  · intro p hp
    obtain ⟨q,hq,he⟩ := hmem p hp
    rw [hsame.destroyed,← (Prod.mk.inj he).1]
    exact h.alive q hq

theorem Ages.sublist (h : s.Ages) {persistentClients : Table Bytes Pclient}
    {requestClients : List Pclient} (hpersistent : persistentClients.Sublist s.persistentClients)
    (hrequest : requestClients.Sublist s.requestClients) :
    Ages { s with persistentClients := persistentClients, requestClients := requestClients } := by
  have hsub : (persistentClients.map Prod.snd ++ requestClients).Sublist s.pclients :=
    (hpersistent.map _).append hrequest
  exact { h with
    known := fun p hp => h.known p (hsub.subset hp)
    clientsNodup := (hsub.map _).nodup h.clientsNodup
    creator := fun p hp => h.creator p (hsub.subset hp)
    persistentOrder := h.persistentOrder.sublist (hpersistent.map _)
    requestOrder := h.requestOrder.sublist (hrequest.map _)
    alive := fun p hp => h.alive p (hsub.subset hp) }

theorem Ages.destroy (h : s.Ages) {c : ℕ} (hc : ∀ p ∈ s.pclients, p.client ≠ c) :
    Ages { s with calls := .destroy c::s.calls } :=
  { h with
    known := h.known
    alive := fun p hp hmem => by
      rcases List.mem_cons.mp hmem with he | hmem
      · exact hc p hp (ClientCall.destroy.inj he)
      · exact h.alive p hp hmem }

section Same

theorem registration_resetRequestClient (client : Option ℕ) (pid : ℕ) (ps : List Pclient) :
    (resetRequestClient client pid ps).1.map Pclient.registration =
      ps.map Pclient.registration := by
  induction ps with
  | nil => rfl
  | cons p ps ih =>
    unfold resetRequestClient
    split
    · simp
    · simp [ih]

theorem destroy_notMem_resetOnce (p : Pclient) (pid c : ℕ) :
    ClientCall.destroy c ∉ (p.resetOnce pid).2 := by
  unfold Pclient.resetOnce
  split <;> simp

theorem destroy_notMem_resetRequestClient (client : Option ℕ) (pid c : ℕ) (ps : List Pclient) :
    ClientCall.destroy c ∉ (resetRequestClient client pid ps).2 := by
  induction ps with
  | nil => exact List.not_mem_nil
  | cons p ps ih =>
    unfold resetRequestClient
    split
    · exact destroy_notMem_resetOnce p pid c
    · exact ih

theorem same_resetRegistered (s : Process) (m : Manager) : s.SameClients (s.resetRegistered m) := by
  unfold Process.resetRegistered
  split
  · split
    · rename_i p hfind
      refine ⟨rfl,rfl,map_update_of_find? Pclient.registration hfind (by simp),rfl,fun c => ?_⟩
      exact List.mem_append.trans (or_iff_right (destroy_notMem_resetOnce p s.pid c))
    · exact SameClients.refl s
  · refine ⟨rfl,rfl,rfl,registration_resetRequestClient _ _ _,fun c => ?_⟩
    exact List.mem_append.trans (or_iff_right (destroy_notMem_resetRequestClient _ _ c _))

theorem same_clientResetOnce (s : Process) (m : Manager) : s.SameClients (s.clientResetOnce m) := by
  induction m using Process.clientResetOnce.induct with
  | case1 id pid hash persistent client keyVault ih =>
    rw [Process.clientResetOnce]
    exact ih.trans (same_resetRegistered _ _)
  | case2 id pid hash persistent client =>
    rw [Process.clientResetOnce]
    exact same_resetRegistered s _

theorem same_resetClientIfPidDiffers (s : Process) (pid : ℕ) (m : Manager) :
    s.SameClients (s.resetClientIfPidDiffers pid m) := by
  unfold Process.resetClientIfPidDiffers
  split
  · exact same_clientResetOnce s m
  · exact SameClients.refl s

theorem same_freeHandle (s : Process) (h : Handle) : s.SameClients (s.freeHandle h) := by
  have hdrop : s.SameClients { s with handles := s.handles.filter (·.id ≠ h.id) } :=
    ⟨rfl,rfl,rfl,rfl,fun _ => Iff.rfl⟩
  have hreset := hdrop.trans (same_resetClientIfPidDiffers _ h.createdByPid h.manager)
  unfold Process.freeHandle
  dsimp only
  split
  · exact hdrop
  · exact hreset
  · exact hreset

theorem same_addHandle (s : Process) (kind : HandleKind) (m : Manager) :
    s.SameClients (s.addHandle kind m) := ⟨rfl,rfl,rfl,rfl,fun _ => Iff.rfl⟩

theorem same_perform (s : Process) (m : Manager) (operation : Operation) :
    s.SameClients (s.perform m operation) := by
  have huse : s.SameClients (s.useClient m) := by
    refine ⟨rfl,rfl,rfl,rfl,fun c => List.mem_append.trans (or_iff_right ?_)⟩
    cases m.client <;> simp
  cases operation with
  | rejected => exact SameClients.refl s
  | execute cursor =>
    cases cursor
    · exact huse
    · exact huse.trans (same_addHandle _ .cursor m)
  | startSession started =>
    cases started
    · exact huse
    · exact huse.trans (same_addHandle _ .session m)

end Same

theorem perm_eraseP_of_find? {α : Type} {p : α → Bool} {xs : List α} {x : α}
    (h : xs.find? p = some x) : xs.Perm (x::xs.eraseP p) := by
  obtain ⟨hx,as,bs,rfl,has⟩ := List.find?_eq_some_iff_append.mp h
  have herase : (as ++ x::bs).eraseP p = as ++ bs := by
    rw [List.eraseP_append_right _ fun a ha => by simpa using has a ha,
      List.eraseP_cons_of_pos hx]
  rw [herase]
  exact List.perm_middle

/-- The client that leaves the request-scoped registry is in neither any more. -/
theorem Ages.notMem_of_find? (h : s.Ages) {found : Pclient → Bool} {p : Pclient}
    (hfind : s.requestClients.find? found = some p) :
    ∀ q ∈ s.persistentClients.map Prod.snd ++ s.requestClients.eraseP found,
      q.client ≠ p.client := by
  have hperm : s.pclients.Perm
      (p::(s.persistentClients.map Prod.snd ++ s.requestClients.eraseP found)) :=
    ((perm_eraseP_of_find? hfind).append_left _).trans List.perm_middle
  have hnodup := ((hperm.map (·.client)).nodup_iff).mp h.clientsNodup
  rw [List.map_cons,List.nodup_cons] at hnodup
  exact fun q hq hc => hnodup.1 (List.mem_map.mpr ⟨q,hq,hc⟩)

/-- Giving up a Manager's client. -/
theorem Ages.clientUnregister (h : s.Ages) (m : Manager) : (s.clientUnregister m).Ages := by
  unfold Process.clientUnregister
  split
  · exact h
  · split
    · rename_i p hfind
      have hkept := h.sublist (List.Sublist.refl _) (List.eraseP_sublist
        (p:=fun q => decide (some q.client = m.client)) (l:=s.requestClients))
      unfold Process.pclientDestroy
      split
      · exact hkept.destroy (h.notMem_of_find? hfind)
      · exact hkept
    · exact h

theorem Ages.freeManager (h : s.Ages) (m : Manager) : (s.freeManager m).Ages := by
  have hdrop : Ages { s with managers := s.managers.erase m.id
                             objects := s.objects.filter (·.id ≠ m.id) } := { h with known := h.known }
  unfold Process.freeManager
  dsimp only
  split
  · exact hdrop.clientUnregister m
  · exact hdrop

/-- What holds beyond that of the processes of a run. -/
structure Aged (pids : List ℕ) (s : Process) : Prop extends Ages s where
  createdIn : ∀ record ∈ s.clients, record.createdIn ∈ pids
  destroyKnown : ∀ c, ClientCall.destroy c ∈ s.calls → c < s.clients.length

theorem Aged.of_same (h : s.Aged pids) (hsame : s.SameClients s') : s'.Aged pids :=
  ⟨h.toAges.of_same hsame,hsame.clients ▸ h.createdIn,fun c hc => by
    rw [hsame.clients]
    exact h.destroyKnown c ((hsame.destroyed c).mp hc)⟩

theorem destroy_mem_freeManager (h : s.Ages) {c : ℕ}
    (hc : ClientCall.destroy c ∈ (s.freeManager m).calls) :
    ClientCall.destroy c ∈ s.calls ∨ c < s.clients.length := by
  unfold Process.freeManager Process.clientUnregister Process.pclientDestroy at hc
  dsimp only at hc
  split at hc
  · split at hc
    · exact Or.inl hc
    · split at hc
      · rename_i p hfind
        split at hc
        · rcases List.mem_cons.mp hc with he | hc
          · cases he
            exact Or.inr (h.known p (List.mem_append_right _ (List.mem_of_find?_eq_some hfind)))
          · exact Or.inl hc
        · exact Or.inl hc
      · exact Or.inl hc
  · exact Or.inl hc

theorem Aged.freeManager (h : s.Aged pids) (m : Manager) : (s.freeManager m).Aged pids := by
  refine ⟨h.toAges.freeManager m,?_,fun c hc => ?_⟩
  · rw [(frame_freeManager s m).clients]
    exact h.createdIn
  · rw [(frame_freeManager s m).clients]
    exact (destroy_mem_freeManager h.toAges hc).elim (h.destroyKnown c) id

section Construct

theorem Aged.extend (h : s.Aged pids) (hs : s.Sound pids) {records : List MongocClient}
    (hrecords : ∀ record ∈ records, s.Makes record) (handshakes : List HandshakeData) :
    (s.extend records handshakes).Aged pids := by
  have htracks := (hs.extend records hrecords handshakes).toTracks
  have hcase : ∀ (c : ℕ) record, (s.extend records handshakes).clients[c]? = some record →
      s.clients[c]? = some record ∨ record.createdIn = s.pid := by
    intro c record hrecord
    rcases Nat.lt_or_ge c s.clients.length with hlt | hge
    · exact Or.inl ((getElem?_extend s records handshakes hlt).symm.trans hrecord)
    · have hrecord' : records[c - s.clients.length]? = some record :=
        (List.getElem?_append_right hge).symm.trans hrecord
      exact Or.inr (hrecords record (List.mem_of_getElem? hrecord')).1
  refine ⟨{ h with known := htracks.known, keyVaultOlder := htracks.keyVaultOlder,
                   ownLater := ?_, creator := ?_ },?_,?_⟩
  · intro c d record record' hlt hrecord hrecord' hpid
    rcases hcase d record' hrecord' with hold | hown
    · have hc : c < s.clients.length := hlt.trans (List.getElem?_eq_some_iff.mp hold).1
      exact h.ownLater c d record record' hlt
        ((getElem?_extend s records handshakes hc).symm.trans hrecord) hold hpid
    · exact hown
  · intro p hp record hrecord
    exact h.creator p hp record
      ((getElem?_extend s records handshakes (h.known p hp)).symm.trans hrecord)
  · intro record hrecord
    rcases List.mem_append.mp hrecord with hrecord | hrecord
    · exact h.createdIn record hrecord
    · rw [(hrecords record hrecord).1]
      exact hs.pid_mem
  · exact fun c hc => (h.destroyKnown c hc).trans_le (by simp [Process.extend])

theorem pairwise_concat_of_lt {α : Type} {f : α → ℕ} {xs : List α} {x : α}
    (h : (xs.map f).Pairwise (· < ·)) (hx : ∀ y ∈ xs, f y < f x) :
    ((xs ++ [x]).map f).Pairwise (· < ·) := by
  rw [List.map_append,List.pairwise_append]
  refine ⟨h,List.pairwise_singleton _ _,fun a ha b hb => ?_⟩
  obtain ⟨y,hy,rfl⟩ := List.mem_map.mp ha
  obtain rfl := List.mem_singleton.mp hb
  exact hx y hy

theorem Aged.add (h : s.Aged pids) {persistentClients : Table Bytes Pclient}
    {requestClients : List Pclient} {p : Pclient}
    (hs : Tracks pids { s with persistentClients := persistentClients
                               requestClients := requestClients })
    (hmem : ∀ q ∈ persistentClients.map Prod.snd ++ requestClients, q ∈ s.pclients ∨ q = p)
    (hcreator : ∀ record, s.clients[p.client]? = some record → record.createdIn = p.createdByPid)
    (halive : ClientCall.destroy p.client ∉ s.calls)
    (hpersistent : (persistentClients.map (·.2.client)).Pairwise (· < ·))
    (hrequest : (requestClients.map (·.client)).Pairwise (· < ·)) :
    Aged pids { s with persistentClients := persistentClients, requestClients := requestClients } :=
  { h with
    known := hs.known
    clientsNodup := hs.clientsNodup
    persistentOrder := hpersistent
    requestOrder := hrequest
    creator := fun q hq => by
      rcases hmem q hq with hq | rfl
      · exact h.creator q hq
      · exact hcreator
    alive := fun q hq => by
      rcases hmem q hq with hq | rfl
      · exact h.alive q hq
      · exact halive }

theorem Aged.clientRegister (h : s.Aged pids) (client : ℕ) {record : MongocClient}
    (hs : (s.clientRegister m client).Tracks pids) (hrecord : s.clients[client]? = some record)
    (hpid : record.createdIn = s.pid) (hyoungest : ∀ p ∈ s.pclients, p.client < client)
    (halive : ClientCall.destroy client ∉ s.calls)
    (hnone : m.usePersistentClient = true →
      find? s.persistentClients (m.clientHash.getD []) = none) :
    (s.clientRegister m client).Aged pids := by
  have hcreator : ∀ record', s.clients[client]? = some record' → record'.createdIn = s.pid :=
    fun record' hrecord' => Option.some.inj (hrecord.symm.trans hrecord') ▸ hpid
  unfold Process.clientRegister at hs ⊢
  dsimp only at hs ⊢
  by_cases hp : m.usePersistentClient = true
  · have hnew := update_of_notMem s.persistentClients (m.clientHash.getD [])
      (⟨client,s.pid,0,m.usePersistentClient⟩ : Pclient) ((find?_eq_none _ _).mp (hnone hp))
    rw [if_pos hp,hnew] at hs ⊢
    refine h.add (p:=⟨client,s.pid,0,m.usePersistentClient⟩) hs (fun q hq => ?_) hcreator halive
      (pairwise_concat_of_lt h.persistentOrder fun e he => hyoungest e.2
        (List.mem_append_left _ (List.mem_map_of_mem he))) h.requestOrder
    simp only [List.map_append,List.mem_append,List.map_cons,List.map_nil,
      List.mem_singleton] at hq
    simp only [Process.pclients,List.mem_append]
    tauto
  · rw [if_neg hp] at hs ⊢
    refine h.add (p:=⟨client,s.pid,0,m.usePersistentClient⟩) hs (fun q hq => ?_) hcreator halive
      h.persistentOrder (pairwise_concat_of_lt h.requestOrder fun q hq => hyoungest q
        (List.mem_append_right _ hq))
    simp only [List.mem_append,List.mem_singleton] at hq
    simp only [Process.pclients,List.mem_append]
    tauto

variable {Uri : Type} (E : Outside Uri)

theorem Aged.createManager (h : s.Aged pids) : s.createManager.2.Aged pids :=
  ⟨{ h with known := h.known },h.createdIn,h.destroyKnown⟩

theorem Aged.withRegistered (h : s.Aged pids) (hs : s.Sound pids)
    (handshakes : List HandshakeData) {hash rest : Bytes} (hhash : m.clientHash = some hash)
    (hrest : hash = hashPrefix s.pid ++ rest)
    (hnone : m.usePersistentClient = true → s.findPersistentClient hash = none)
    (hkeyVault : ∀ k, m.keyVaultClientManager = some k → k ∈ s.objects) :
    (s.withRegistered handshakes m).Aged pids := by
  have hsound := hs.withRegistered handshakes hhash hrest hnone hkeyVault
  have hmakes : ∀ record ∈ [s.newRecord m], s.Makes record := fun record hr => by
    obtain rfl := List.mem_singleton.mp hr
    refine ⟨rfl,fun k hk => ?_⟩
    obtain ⟨o,ho,hk⟩ := Option.bind_eq_some_iff.mp hk
    exact ⟨o,hkeyVault o ho,hk⟩
  refine (h.extend hs hmakes handshakes).clientRegister s.clients.length
    hsound.toTracks (List.getElem?_concat_length) rfl hs.known
    (fun hc => (h.destroyKnown _ hc).ne rfl) fun hp => ?_
  have hfind := hnone hp
  rw [findPersistentClient,Option.map_eq_none_iff] at hfind
  simpa [hhash,Process.extend] using hfind

theorem Aged.construct (h : s.Aged pids) (hs : s.Sound pids) (a : ManagerArgs) :
    (E.construct s a).1.Aged pids := by
  have hconstructs := construct_constructs E hs a
  have hsound := hs.construct E a
  have hcreate := h.createManager
  have hsame : ∀ {t t' : Process}, t.Aged pids → t'.pid = t.pid → t'.clients = t.clients →
      t'.persistentClients = t.persistentClients → t'.requestClients = t.requestClients →
      t'.calls = t.calls → t'.Aged pids := by
    intro t t' ht hpid hclients hpersistent hrequest hcalls
    exact ht.of_same ⟨hpid,hclients,by rw [hpersistent],by rw [hrequest],fun c => by rw [hcalls]⟩
  generalize E.construct s a = r at hconstructs hsound
  cases hconstructs with
  | failed records handshakes calls eg hrecords hcalls hne =>
    have hext := h.extend hs hrecords handshakes
    rcases hcalls with rfl | ⟨hsome,rfl⟩
    · exact hsame hext rfl rfl rfl rfl rfl
    · have hlt : s.clients.length < (s.extend records handshakes).clients.length := by
        have hpos := List.length_pos_iff.mpr hsome
        simp only [Process.extend,List.length_append]
        omega
      have hdestroy := hext.toAges.destroy (c:=s.clients.length) fun p hp => hs.ne_length hp
      refine ⟨{ hdestroy with known := hdestroy.known },hext.createdIn,fun c hc => ?_⟩
      rcases List.mem_cons.mp hc with he | hc
      · cases he
        exact hlt
      · exact hext.destroyKnown c hc
  | left hash keyVault handshakes eg hhash hpersistent hnone hkeyVault hne =>
    obtain ⟨rest,hrest⟩ := (makeClientHash_eq_some E hhash).2
    exact hcreate.withRegistered hs.createManager
      (m:=s.createManager.1.withClient hash true s.clients.length keyVault) handshakes rfl hrest
      (fun _ => hnone) (fun k hk => hkeyVault.mem k hk)
  | found hash client hhash hpersistent hfind m hm => exact hsame h rfl rfl rfl rfl rfl
  | registered hash keyVault handshakes hhash hnone hkeyVault m hm =>
    obtain ⟨rest,hrest⟩ := (makeClientHash_eq_some E hhash).2
    refine hsame (hcreate.withRegistered hs.createManager (m:=m) handshakes (by rw [hm]; rfl) hrest
      (by rw [hm]; exact hnone) (by rw [hm]; exact hkeyVault.mem)) rfl rfl rfl rfl rfl

end Construct

theorem Aged.fork (h : s.Aged pids) {child : ℕ} (hchild : child ∉ pids) :
    (s.fork child).Aged (pids ++ [child]) := by
  refine ⟨{ h with known := h.known, ownLater := ?_, alive := ?_ },?_,?_⟩
  · intro c d record record' _ hrecord _ hpid
    have hpid : record.createdIn = child := hpid
    exact absurd (hpid ▸ h.createdIn record (List.mem_of_getElem? hrecord)) hchild
  · exact fun p _ hc => absurd hc List.not_mem_nil
  · exact fun record hrecord => List.mem_append_left _ (h.createdIn record hrecord)
  · exact fun c hc => absurd hc List.not_mem_nil

theorem Aged.mono (h : s.Aged pids) {pids' : List ℕ} (hsub : pids ⊆ pids') : s.Aged pids' :=
  ⟨h.toAges,fun record hrecord => hsub (h.createdIn record hrecord),h.destroyKnown⟩

theorem Aged.start (pid : ℕ) : (Process.start pid).Aged [pid] := by
  refine ⟨⟨?_,?_,?_,?_,?_,?_,?_,?_⟩,?_,?_⟩
  all_goals simp [Process.start,pclients]

theorem Aged.run {Uri : Type} (h : s.Aged pids) (hs : s.Sound pids) {action : Action Uri}
    (hrun : s.run action = some s') : s'.Aged pids := by
  cases action with
  | construct E a =>
    cases hrun
    exact h.construct E hs a
  | freeManager id =>
    simp only [Process.run] at hrun
    split at hrun
    · split at hrun
      · cases hrun
      · cases hrun
        exact h.freeManager _
    · cases hrun
  | getServer id =>
    obtain ⟨m,-,rfl⟩ := Option.map_eq_some_iff.mp hrun
    exact h.of_same (same_addHandle s .server m)
  | operate through operation =>
    simp only [Process.run] at hrun
    split at hrun
    · cases hrun
      exact h.of_same ((same_resetClientIfPidDiffers _ _ _).trans (same_perform _ _ operation))
    · cases hrun
  | freeHandle id =>
    obtain ⟨handle,-,rfl⟩ := Option.map_eq_some_iff.mp hrun
    exact h.of_same (same_freeHandle s handle)

end

end Process

namespace World
variable {w w' : World} {Uri : Type}

/-- The clients' ages over every tree of forks. -/
theorem aged_of_reaches {pid : ℕ} {ok : World → Event Uri → Prop} (hpid : pid ≠ 0)
    (h : Reaches World.Step ok (World.start pid) w) : ∀ s ∈ w.processes, s.Aged w.pids := by
  have hboth := h.invariant (I:=fun w => w.Sound ∧ ∀ s ∈ w.processes, s.Aged w.pids)
    (fun v e v' hv _ hstep => ?_) ⟨Sound.start hpid,fun s hs => by
      obtain rfl := List.mem_singleton.mp hs
      exact Process.Aged.start pid⟩
  · exact hboth.2
  · refine ⟨hv.1.step hstep,fun t ht => ?_⟩
    rcases step_cases hstep with ⟨pid,action,s,s',-,hfind,hrun,-,hpids,hmem⟩ |
      ⟨parent,child,s,-,hfind,-,hnew,rfl⟩ | ⟨pid,-,rfl⟩
    · rw [hpids]
      rcases hmem t ht with rfl | ⟨ht,-⟩
      · have hs := (findProcess_mem hfind).1
        exact (hv.2 s hs).run (hv.1.processes s hs) hrun
      · exact hv.2 t ht
    · rcases List.mem_append.mp ht with ht | ht
      · exact (hv.2 t ht).mono (List.subset_append_left _ _)
      · obtain rfl := List.mem_singleton.mp ht
        exact (hv.2 s (findProcess_mem hfind).1).fork hnew
    · exact hv.2 t (List.mem_of_mem_filter ht)

end World

end Phongo
