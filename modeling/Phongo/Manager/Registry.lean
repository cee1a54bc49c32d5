import Mathlib.Data.List.Nodup
import Mathlib.Tactic.Common
import Phongo.Manager.World

/-! The client registries and the calls they lead to. Where no client is registered twice, a reset
is one change: the client's pclient is marked, and libmongoc is called unless it was already. -/
namespace Phongo
open OrderedTable

/-- The pclient once the process `pid` has reset the client. -/
def Pclient.mark (pid client : ℕ) (p : Pclient) : Pclient :=
  if p.client = client then { p with lastResetByPid := pid } else p

@[simp] theorem Pclient.client_mark (pid client : ℕ) (p : Pclient) :
    (p.mark pid client).client = p.client := by
  unfold mark
  split <;> rfl

theorem Pclient.mark_of_ne {pid client : ℕ} {p : Pclient} (h : p.client ≠ client) :
    p.mark pid client = p := by
  simp [mark,h]

theorem Pclient.resetOnce_fst (p : Pclient) (pid : ℕ) :
    (p.resetOnce pid).1 = p.mark pid p.client := by
  unfold resetOnce mark
  by_cases h : p.lastResetByPid = pid
  · cases p
    simp_all
  · simp [h]

namespace Process

/-- Both registries. -/
def pclients (s : Process) : List Pclient := s.persistentClients.map Prod.snd ++ s.requestClients

def resetClient (s : Process) (client : ℕ) : Process :=
  { s with
    persistentClients := mapValues (Pclient.mark s.pid client) s.persistentClients
    requestClients := s.requestClients.map (Pclient.mark s.pid client)
    calls := if .reset client ∈ s.calls then s.calls else .reset client::s.calls }

/-- What holds of the registries and the calls at any time. -/
structure Tracks (pids : List ℕ) (s : Process) : Prop where
  pid_mem : s.pid ∈ pids
  pid_ne_zero : s.pid ≠ 0
  hashesNodup : (keys s.persistentClients).Nodup
  clientsNodup : (s.pclients.map (·.client)).Nodup
  known : ∀ p ∈ s.pclients, p.client < s.clients.length
  hash : ∀ e ∈ s.persistentClients, ∀ record, s.clients[e.2.client]? = some record →
    ∃ rest, e.1 = hashPrefix record.createdIn ++ rest
  lastReset : ∀ p ∈ s.pclients, p.lastResetByPid = 0 ∨ p.lastResetByPid ∈ pids
  reset_iff : ∀ p ∈ s.pclients, ClientCall.reset p.client ∈ s.calls ↔ p.lastResetByPid = s.pid
  resetKnown : ∀ c, ClientCall.reset c ∈ s.calls → c < s.clients.length
  resetOnce : ∀ c, s.calls.count (.reset c) ≤ 1
  useKnown : ∀ c, ClientCall.use c ∈ s.calls → c < s.clients.length
  keyVaultOlder : ∀ c (record : MongocClient) k, s.clients[c]? = some record →
    record.keyVaultClient = some k → k < c

def Registered (s : Process) (m : Manager) (client : ℕ) : Prop :=
  if m.usePersistentClient then
    ∃ hash pclient, m.clientHash = some hash ∧ find? s.persistentClients hash = some pclient ∧
      pclient.client = client
  else ∃ pclient ∈ s.requestClients, pclient.client = client

section
variable {s : Process} {pids : List ℕ} {client : ℕ} {m : Manager}

@[simp] theorem clients_resetClient (s : Process) (client : ℕ) :
    (s.resetClient client).clients = s.clients := rfl

@[simp] theorem pid_resetClient (s : Process) (client : ℕ) : (s.resetClient client).pid = s.pid :=
  rfl

theorem pclients_resetClient (s : Process) (client : ℕ) :
    (s.resetClient client).pclients = s.pclients.map (Pclient.mark s.pid client) := by
  simp [pclients,resetClient,mapValues,Function.comp_def]

theorem mem_calls_resetClient {call : ClientCall} :
    call ∈ (s.resetClient client).calls ↔ call = .reset client ∨ call ∈ s.calls := by
  unfold resetClient
  dsimp only
  split
  · rename_i h
    exact ⟨Or.inr,fun hc => hc.elim (fun he => he ▸ h) id⟩
  · exact List.mem_cons

theorem Tracks.resetClient (h : s.Tracks pids) (hclient : client < s.clients.length) :
    (s.resetClient client).Tracks pids := by
  have hmem : ∀ p ∈ (s.resetClient client).pclients, ∃ q ∈ s.pclients,
      p = q.mark s.pid client := fun p hp => by
    rw [pclients_resetClient] at hp
    obtain ⟨q,hq,rfl⟩ := List.mem_map.mp hp
    exact ⟨q,hq,rfl⟩
  refine ⟨h.pid_mem,h.pid_ne_zero,?_,?_,?_,?_,?_,?_,?_,?_,?_,h.keyVaultOlder⟩
  · simpa [Process.resetClient] using h.hashesNodup
  · rw [pclients_resetClient,List.map_map]
    simpa [Function.comp_def] using h.clientsNodup
  · intro p hp
    obtain ⟨q,hq,rfl⟩ := hmem p hp
    simpa using h.known q hq
  · intro e he record hrecord
    obtain ⟨e',he',rfl⟩ := List.mem_map.mp he
    exact h.hash e' he' record (by simpa using hrecord)
  · intro p hp
    obtain ⟨q,hq,rfl⟩ := hmem p hp
    by_cases hc : q.client = client
    · exact Or.inr (by simpa [Pclient.mark,hc] using h.pid_mem)
    · rw [Pclient.mark_of_ne hc]
      exact h.lastReset q hq
  · intro p hp
    obtain ⟨q,hq,rfl⟩ := hmem p hp
    rw [mem_calls_resetClient,Pclient.client_mark]
    by_cases hc : q.client = client
    · simp [Pclient.mark,hc,Process.resetClient]
    · rw [Pclient.mark_of_ne hc]
      simpa [hc] using h.reset_iff q hq
  · intro c hc
    rcases mem_calls_resetClient.mp hc with he | hc
    · cases he
      exact hclient
    · exact h.resetKnown c hc
  · intro c
    unfold Process.resetClient
    dsimp only
    split
    · exact h.resetOnce c
    · rename_i hnot
      by_cases hc : c = client
      · subst hc
        rw [List.count_cons_self,List.count_eq_zero_of_not_mem hnot]
      · rw [List.count_cons_of_ne (by simpa using Ne.symm hc)]
        exact h.resetOnce c
  · intro c hc
    rcases mem_calls_resetClient.mp hc with he | hc
    · cases he
    · exact h.useKnown c hc

theorem resetOnce_snd (h : s.Tracks pids) {p : Pclient} (hp : p ∈ s.pclients) :
    (p.resetOnce s.pid).2 ++ s.calls =
      if .reset p.client ∈ s.calls then s.calls else .reset p.client::s.calls := by
  unfold Pclient.resetOnce
  by_cases hlast : p.lastResetByPid = s.pid
  · simp [hlast,(h.reset_iff p hp).mpr hlast]
  · simp [hlast,mt (h.reset_iff p hp).mp hlast]

theorem resetRequestClient_fst (pid : ℕ) (ps : List Pclient)
    (hn : (ps.map (·.client)).Nodup) :
    (resetRequestClient (some client) pid ps).1 = ps.map (Pclient.mark pid client) := by
  induction ps with
  | nil => rfl
  | cons p ps ih =>
    have hn' := List.nodup_cons.mp hn
    by_cases hc : p.client = client
    · have hrest : ps.map (Pclient.mark pid client) = ps := by
        refine (List.map_congr_left fun q hq => ?_).trans (List.map_id ps)
        exact Pclient.mark_of_ne fun he => hn'.1 (List.mem_map.mpr ⟨q,hq,he.trans hc.symm⟩)
      simp [resetRequestClient,hc,hrest,Pclient.resetOnce_fst]
    · simp [resetRequestClient,hc,ih hn'.2,Pclient.mark_of_ne hc]

theorem resetRequestClient_snd {pid : ℕ} {ps : List Pclient} {p : Pclient} (hp : p ∈ ps)
    (hn : (ps.map (·.client)).Nodup) :
    (resetRequestClient (some p.client) pid ps).2 = (p.resetOnce pid).2 := by
  induction ps with
  | nil => simp at hp
  | cons q ps ih =>
    have hn' := List.nodup_cons.mp hn
    rcases List.mem_cons.mp hp with rfl | hp
    · simp [resetRequestClient]
    · have hc : q.client ≠ p.client := fun he => hn'.1 (List.mem_map.mpr ⟨p,hp,he.symm⟩)
      simp [resetRequestClient,hc,ih hp hn'.2]

/-- The code's search and update is the reset of the client. -/
theorem resetRegistered_eq (h : s.Tracks pids) (hm : m.client = some client)
    (hreg : s.Registered m client) : s.resetRegistered m = s.resetClient client := by
  have hnodup := h.clientsNodup
  rw [pclients,List.map_append] at hnodup
  obtain ⟨hpersistent,hrequest,hdisjoint⟩ := List.nodup_append.mp hnodup
  unfold Registered at hreg
  unfold resetRegistered
  by_cases hp : m.usePersistentClient = true
  · rw [if_pos hp] at hreg
    obtain ⟨hash,p,hhash,hfind,rfl⟩ := hreg
    have hmem := mem_of_find?_eq_some _ _ _ hfind
    have hpm : p ∈ s.persistentClients.map Prod.snd := List.mem_map_of_mem hmem
    have hupdate := update_eq_mapValues (Pclient.mark s.pid p.client) s.persistentClients hash p
      hfind (fun e he hne => Pclient.mark_of_ne fun hc => hne (by
        rw [List.map_map] at hpersistent
        exact List.inj_on_of_nodup_map hpersistent he hmem hc)) h.hashesNodup
    have hrest : s.requestClients.map (Pclient.mark s.pid p.client) = s.requestClients := by
      refine (List.map_congr_left fun q hq => ?_).trans (List.map_id _)
      exact Pclient.mark_of_ne fun he =>
        hdisjoint p.client (List.mem_map_of_mem hpm) q.client (List.mem_map_of_mem hq) he.symm
    rw [if_pos hp]
    simp only [hhash,Option.getD_some,hfind,Pclient.resetOnce_fst,hupdate,Process.resetClient,hrest,
      resetOnce_snd h (List.mem_append_left _ hpm)]
  · rw [if_neg hp] at hreg
    obtain ⟨p,hpm,rfl⟩ := hreg
    have hrest : mapValues (Pclient.mark s.pid p.client) s.persistentClients =
        s.persistentClients := by
      refine (List.map_congr_left fun e he => ?_).trans (List.map_id _)
      refine Prod.ext rfl (Pclient.mark_of_ne fun hc => ?_)
      exact hdisjoint e.2.client (List.mem_map_of_mem (List.mem_map_of_mem he)) p.client
        (List.mem_map_of_mem hpm) hc
    rw [if_neg hp,hm]
    simp only [resetRequestClient_fst s.pid s.requestClients hrequest,
      resetRequestClient_snd hpm hrequest,Process.resetClient,hrest,
      resetOnce_snd h (List.mem_append_right _ hpm)]

theorem Registered.resetClient (hreg : s.Registered m client) (c : ℕ) :
    (s.resetClient c).Registered m client := by
  unfold Registered at hreg ⊢
  by_cases hp : m.usePersistentClient = true
  · rw [if_pos hp] at hreg ⊢
    obtain ⟨hash,p,hhash,hfind,hc⟩ := hreg
    refine ⟨hash,p.mark s.pid c,hhash,?_,by simpa using hc⟩
    simp [Process.resetClient,find?_mapValues,hfind]
  · rw [if_neg hp] at hreg ⊢
    obtain ⟨p,hp,hc⟩ := hreg
    exact ⟨p.mark s.pid c,List.mem_map_of_mem hp,by simpa using hc⟩

theorem Registered.mem_pclients (hreg : s.Registered m client) :
    ∃ p ∈ s.pclients, p.client = client := by
  unfold Registered at hreg
  split at hreg
  · obtain ⟨hash,p,-,hfind,hc⟩ := hreg
    exact ⟨p,List.mem_append_left _ (List.mem_map_of_mem (mem_of_find?_eq_some _ _ _ hfind)),hc⟩
  · obtain ⟨p,hp,hc⟩ := hreg
    exact ⟨p,List.mem_append_right _ hp,hc⟩

theorem Tracks.push (h : s.Tracks pids) {call : ClientCall} (hreset : ∀ c, call ≠ .reset c)
    (huse : ∀ c, call = .use c → c < s.clients.length) :
    Tracks pids { s with calls := call::s.calls } := by
  have hmem : ∀ c, ClientCall.reset c ∈ call::s.calls ↔ ClientCall.reset c ∈ s.calls := fun c => by
    simp [(hreset c).symm]
  refine { h with reset_iff := ?_, resetKnown := ?_, resetOnce := ?_, useKnown := ?_ }
  · exact fun p hp => (hmem _).trans (h.reset_iff p hp)
  · exact fun c hc => h.resetKnown c ((hmem c).mp hc)
  · intro c
    rw [List.count_cons_of_ne (hreset c)]
    exact h.resetOnce c
  · intro c hc
    rcases List.mem_cons.mp hc with he | hc
    · exact huse c he.symm
    · exact h.useKnown c hc

theorem Tracks.requestSublist (h : s.Tracks pids) {ps : List Pclient}
    (hsub : ps.Sublist s.requestClients) : Tracks pids { s with requestClients := ps } := by
  have hp : (s.persistentClients.map Prod.snd ++ ps).Sublist s.pclients :=
    hsub.append_left _
  exact { h with
    clientsNodup := (hp.map _).nodup h.clientsNodup
    known := fun p hm => h.known p (hp.subset hm)
    lastReset := fun p hm => h.lastReset p (hp.subset hm)
    reset_iff := fun p hm => h.reset_iff p (hp.subset hm) }

theorem Tracks.extendClients (h : s.Tracks pids) {records : List MongocClient}
    (hrecords : ∀ record ∈ records, ∀ k, record.keyVaultClient = some k → k < s.clients.length)
    (handshakes : List HandshakeData) :
    Tracks pids { s with clients := s.clients ++ records, handshakes := handshakes } := by
  have hlen : s.clients.length ≤ (s.clients ++ records).length := by simp
  refine { h with known := ?_, hash := ?_, resetKnown := ?_, useKnown := ?_, keyVaultOlder := ?_ }
  · exact fun p hp => lt_of_lt_of_le (h.known p hp) hlen
  · intro e he record hrecord
    have hlt := h.known e.2 (List.mem_append_left _ (List.mem_map_of_mem he))
    exact h.hash e he record ((List.getElem?_append_left hlt).symm.trans hrecord)
  · exact fun c hc => lt_of_lt_of_le (h.resetKnown c hc) hlen
  · exact fun c hc => lt_of_lt_of_le (h.useKnown c hc) hlen
  · intro c record k hrecord hk
    rcases Nat.lt_or_ge c s.clients.length with hlt | hge
    · exact h.keyVaultOlder c record k ((List.getElem?_append_left hlt).symm.trans hrecord) hk
    · have hrecord' : records[c - s.clients.length]? = some record :=
        (List.getElem?_append_right hge).symm.trans hrecord
      exact lt_of_lt_of_le (hrecords record (List.mem_of_getElem? hrecord') k hk) hge

/-- One more pclient, of a client that is in no registry and was never reset. -/
theorem Tracks.add (h : s.Tracks pids) {persistentClients : Table Bytes Pclient}
    {requestClients : List Pclient} {p : Pclient}
    (hperm : (persistentClients.map Prod.snd ++ requestClients).Perm (p::s.pclients))
    (hnodup : (keys persistentClients).Nodup)
    (hhash : ∀ e ∈ persistentClients, ∀ record, s.clients[e.2.client]? = some record →
      ∃ rest, e.1 = hashPrefix record.createdIn ++ rest)
    (hlt : p.client < s.clients.length) (hfresh : ∀ q ∈ s.pclients, q.client ≠ p.client)
    (hreset : ClientCall.reset p.client ∉ s.calls) (hlast : p.lastResetByPid = 0) :
    Tracks pids
      { s with persistentClients := persistentClients, requestClients := requestClients } := by
  have hmem : ∀ q ∈ persistentClients.map Prod.snd ++ requestClients, q = p ∨ q ∈ s.pclients :=
    fun q hq => List.mem_cons.mp (hperm.mem_iff.mp hq)
  refine { h with hashesNodup := hnodup, hash := hhash, clientsNodup := ?_, known := ?_,
                  lastReset := ?_, reset_iff := ?_ }
  · refine ((hperm.map _).nodup_iff).mpr (List.nodup_cons.mpr ⟨fun hm => ?_,h.clientsNodup⟩)
    obtain ⟨q,hq,hc⟩ := List.mem_map.mp hm
    exact hfresh q hq hc
  · intro q hq
    rcases hmem q hq with rfl | hq
    · exact hlt
    · exact h.known q hq
  · intro q hq
    rcases hmem q hq with rfl | hq
    · exact Or.inl hlast
    · exact h.lastReset q hq
  · intro q hq
    rcases hmem q hq with rfl | hq
    · refine ⟨fun hc => absurd hc hreset,fun hc => absurd ?_ h.pid_ne_zero⟩
      exact hc.symm.trans hlast
    · exact h.reset_iff q hq

theorem Tracks.clientRegister (h : s.Tracks pids) (client : ℕ) (record : MongocClient)
    (hrecord : s.clients[client]? = some record) (hpid : record.createdIn = s.pid)
    (hfresh : ∀ p ∈ s.pclients, p.client ≠ client) (hreset : ClientCall.reset client ∉ s.calls)
    (hhash : m.usePersistentClient = true → ∃ hash rest, m.clientHash = some hash ∧
      find? s.persistentClients hash = none ∧ hash = hashPrefix s.pid ++ rest) :
    (s.clientRegister m client).Tracks pids := by
  have hlt := (List.getElem?_eq_some_iff.mp hrecord).1
  unfold Process.clientRegister
  dsimp only
  by_cases hp : m.usePersistentClient = true
  · obtain ⟨hash,rest,hm,hnone,heq⟩ := hhash hp
    have hnotMem := (find?_eq_none _ _).mp hnone
    rw [if_pos hp,hm,Option.getD_some]
    refine h.add (p:=⟨client,s.pid,0,m.usePersistentClient⟩) ?_ (nodup_update _ _ _ h.hashesNodup)
      ?_ hlt hfresh hreset rfl
    · rw [update_of_notMem _ _ _ hnotMem,List.map_append,List.append_assoc]
      exact List.perm_middle
    · intro e he record' hrecord'
      rcases mem_of_mem_update he with rfl | he
      · obtain rfl := Option.some.inj (hrecord.symm.trans hrecord')
        exact ⟨rest,by rw [hpid]; exact heq⟩
      · exact h.hash e he record' hrecord'
  · rw [if_neg hp]
    refine h.add (p:=⟨client,s.pid,0,m.usePersistentClient⟩) ?_ h.hashesNodup h.hash hlt hfresh
      hreset rfl
    rw [← List.append_assoc]
    exact List.perm_append_singleton _ _

end

end Process

end Phongo
