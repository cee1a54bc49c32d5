import Mathlib.Tactic.Common
import Phongo.Manager.Steps

/-! Clients in forked processes: which of them are reset before they are used.
The reset is left to the pid kept in the object an operation goes through, so it is missed where
that object is younger than the fork and its Manager is not. -/
namespace Phongo
open Transition

def HasReset (calls : List ClientCall) (client : ℕ) (record : MongocClient) : Prop :=
  .reset client ∈ calls ∧ ∀ k, record.keyVaultClient = some k → .reset k ∈ calls

def Operation.uses : Operation → Bool
  | .rejected => false
  | .execute _ => true
  | .startSession _ => true

namespace Process
variable {s s' : Process} {pids : List ℕ} {m : Manager}

/-- Whatever client of another process is used has been reset before. -/
def ResetBeforeUse (s : Process) : Prop :=
  ∀ client before record, (.use client::before) <:+ s.calls →
    s.clients[client]? = some record → record.createdIn ≠ s.pid → HasReset before client record

/-- An operation through an object with this pid and Manager resets what it uses, unless that has
happened before. -/
def ResetsFirst (s : Process) (createdByPid : ℕ) (m : Manager) : Prop :=
  ∀ client record, m.client = some client → s.clients[client]? = some record →
    record.createdIn ≠ s.pid →
    (createdByPid ≠ s.pid ∨ .reset client ∈ s.calls) ∧
    ∀ k, record.keyVaultClient = some k →
      (createdByPid ≠ s.pid ∧ m.keyVaultClientManager.isSome) ∨ .reset k ∈ s.calls

theorem ResetBeforeUse.push (h : s.ResetBeforeUse) {call : ClientCall}
    (hcall : ∀ c, call ≠ .use c) : ResetBeforeUse { s with calls := call::s.calls } := by
  intro client before record hsuffix hrecord hpid
  rcases List.suffix_cons_iff.mp hsuffix with he | hsuffix
  · exact absurd (List.cons.inj he).1.symm (hcall client)
  · exact h client before record hsuffix hrecord hpid

theorem ResetBeforeUse.resetClient (h : s.ResetBeforeUse) (c : ℕ) :
    (s.resetClient c).ResetBeforeUse := by
  unfold ResetBeforeUse Process.resetClient
  dsimp only
  split
  · exact h
  · exact h.push (fun c => by simp)

theorem ResetBeforeUse.resetClients (h : s.ResetBeforeUse) (cs : List ℕ) :
    (s.resetClients cs).ResetBeforeUse := by
  induction cs generalizing s with
  | nil => exact h
  | cons c cs ih => exact ih (h.resetClient c)

theorem ResetBeforeUse.resetClientIfPidDiffers (h : s.ResetBeforeUse) (hs : s.Sound pids)
    (createdByPid : ℕ) (hm : m ∈ s.objects) :
    (s.resetClientIfPidDiffers createdByPid m).ResetBeforeUse := by
  unfold Process.resetClientIfPidDiffers
  split
  · rw [hs.clientResetOnce_eq hm]
    exact h.resetClients m.chain
  · exact h

/-- More clients and objects matter to no call that was made. -/
theorem ResetBeforeUse.of_clients (h : s.ResetBeforeUse) (hs : s.Sound pids)
    (hcalls : s'.calls = s.calls ∨ ∃ c, s'.calls = .destroy c::s.calls) (hpid : s'.pid = s.pid)
    (hclients : ∀ c < s.clients.length, s'.clients[c]? = s.clients[c]?) : s'.ResetBeforeUse := by
  have hkept : ∀ client before record, (.use client::before) <:+ s.calls →
      s'.clients[client]? = some record → record.createdIn ≠ s'.pid →
      HasReset before client record := by
    intro client before record hsuffix hrecord hne
    rw [hpid] at hne
    rw [hclients client (hs.useKnown client (hsuffix.subset List.mem_cons_self))] at hrecord
    exact h client before record hsuffix hrecord hne
  intro client before record hsuffix
  rcases hcalls with hcalls | ⟨c,hcalls⟩
  · rw [hcalls] at hsuffix
    exact hkept client before record hsuffix
  · rw [hcalls] at hsuffix
    rcases List.suffix_cons_iff.mp hsuffix with he | hsuffix
    · cases he
    · exact hkept client before record hsuffix

/-- The key vault client is reset with the client exactly if the Manager refers to its owner. -/
theorem Sound.mem_chain_iff (h : s.Sound pids) (hm : m ∈ s.objects) {client k : ℕ}
    {record : MongocClient} (hclient : m.client = some client)
    (hrecord : s.clients[client]? = some record) (hk : record.keyVaultClient = some k) :
    k ∈ m.chain ↔ m.keyVaultClientManager.isSome = true := by
  obtain ⟨client',record',hown⟩ := h.owns m hm
  obtain rfl := Option.some.inj (hclient.symm.trans hown.client_eq)
  obtain rfl := Option.some.inj (hrecord.symm.trans hown.record_eq)
  cases hkeyVault : m.keyVaultClientManager with
  | some keyVault =>
    have hkc : keyVault.client = some k := (hown.keyVault keyVault hkeyVault).symm.trans hk
    simpa using Manager.mem_chain_keyVault hkeyVault hkc
  | none =>
    have hlt := h.keyVaultOlder client record k hrecord hk
    cases m with
    | mk id pid hash persistent c keyVault =>
      cases hclient
      cases hkeyVault
      simpa [Manager.chain] using hlt.ne

/-- The condition says that the reset that precedes the operation leaves nothing to do. -/
theorem Sound.resetsFirst_iff (h : s.Sound pids) (createdByPid : ℕ) (hm : m ∈ s.objects) :
    s.ResetsFirst createdByPid m ↔ ∀ client record, m.client = some client →
      s.clients[client]? = some record → record.createdIn ≠ s.pid →
      HasReset (s.resetClientIfPidDiffers createdByPid m).calls client record := by
  refine forall_congr' fun client => forall_congr' fun record => forall_congr' fun hclient =>
    forall_congr' fun hrecord => forall_congr' fun _ => ?_
  unfold Process.resetClientIfPidDiffers HasReset
  by_cases hsame : createdByPid = s.pid
  · simp [hsame]
  · rw [if_pos hsame,h.clientResetOnce_eq hm]
    have hself : ClientCall.reset client ∈ (s.resetClients m.chain).calls :=
      (mem_calls_resetClients _).mpr (Or.inr ⟨client,Manager.mem_chain_self hclient,rfl⟩)
    have hkeyVault : ∀ k, record.keyVaultClient = some k →
        (ClientCall.reset k ∈ (s.resetClients m.chain).calls ↔
          m.keyVaultClientManager.isSome = true ∨ .reset k ∈ s.calls) := fun k hk => by
      rw [mem_calls_resetClients,← h.mem_chain_iff hm hclient hrecord hk]
      simp [or_comm]
    simp only [hself,true_and,hsame,ne_eq,not_false_eq_true,true_or]
    exact forall_congr' fun k => forall_congr' fun hk => (hkeyVault k hk).symm

theorem ResetBeforeUse.useClient (h : s.ResetBeforeUse) (hs : s.Sound pids) (hm : m ∈ s.objects) :
    (s.useClient m).ResetBeforeUse ↔ ∀ client record, m.client = some client →
      s.clients[client]? = some record → record.createdIn ≠ s.pid →
      HasReset s.calls client record := by
  obtain ⟨client,record,hown⟩ := hs.owns m hm
  have hcalls : (s.useClient m).calls = .use client::s.calls := by
    simp [Process.useClient,hown.client_eq]
  constructor
  · intro huse client' record' hclient hrecord hpid
    obtain rfl := Option.some.inj (hown.client_eq.symm.trans hclient)
    exact huse client s.calls record' (hcalls ▸ List.suffix_refl _) hrecord hpid
  · intro hreset client' before record' hsuffix hrecord hpid
    rw [hcalls] at hsuffix
    rcases List.suffix_cons_iff.mp hsuffix with he | hsuffix
    · cases he
      exact hreset client record' hown.client_eq hrecord hpid
    · exact h client' before record' hsuffix hrecord hpid

theorem ResetBeforeUse.operate (h : s.ResetBeforeUse) (hs : s.Sound pids) (createdByPid : ℕ)
    (hm : m ∈ s.objects) (operation : Operation) :
    ((s.resetClientIfPidDiffers createdByPid m).perform m operation).ResetBeforeUse ↔
      (operation.uses = true → s.ResetsFirst createdByPid m) := by
  have hframe := hs.frame_resetClientIfPidDiffers createdByPid hm
  have hreset := h.resetClientIfPidDiffers hs createdByPid hm
  have hs' := hs.resetClientIfPidDiffers createdByPid hm
  rw [hs.resetsFirst_iff createdByPid hm]
  have huse := hreset.useClient hs' (hs.mem_resetClientIfPidDiffers createdByPid hm)
  rw [hframe.clients,hframe.pid] at huse
  cases operation with
  | rejected => simpa [Process.perform,Operation.uses] using hreset
  | execute cursor =>
    simp only [Operation.uses,forall_const]
    cases cursor
    · exact huse
    · exact huse
  | startSession started =>
    simp only [Operation.uses,forall_const]
    cases started
    · exact huse
    · exact huse

/-- Where the action uses a client of another process, the condition above. -/
def ActsAfterReset {Uri : Type} (s : Process) : Action Uri → Prop
  | .operate through operation => ∀ createdByPid m,
      s.target operation through = some (createdByPid,m) → operation.uses = true →
      s.ResetsFirst createdByPid m
  | _ => True

theorem calls_freeManager (s : Process) (m : Manager) :
    (s.freeManager m).calls = s.calls ∨ ∃ c, (s.freeManager m).calls = .destroy c::s.calls := by
  unfold Process.freeManager Process.clientUnregister Process.pclientDestroy
  dsimp only
  split
  · split
    · exact Or.inl rfl
    · split
      · split
        · exact Or.inr ⟨_,rfl⟩
        · exact Or.inl rfl
      · exact Or.inl rfl
  · exact Or.inl rfl

section
variable {Uri : Type}

theorem calls_construct (h : s.Sound pids) (E : Outside Uri) (a : ManagerArgs) :
    (E.construct s a).1.pid = s.pid ∧ ((E.construct s a).1.calls = s.calls ∨
      ∃ c, (E.construct s a).1.calls = .destroy c::s.calls) := by
  have hconstructs := construct_constructs E h a
  generalize E.construct s a = r at hconstructs
  cases hconstructs with
  | failed records handshakes calls eg hrecords hcalls hne =>
    exact ⟨rfl,hcalls.imp id fun hdestroy => ⟨_,hdestroy.2⟩⟩
  | left hash keyVault handshakes eg hhash hpersistent hnone hkeyVault hne =>
    rw [Process.withRegistered,pid_clientRegister,calls_clientRegister]
    exact ⟨rfl,Or.inl rfl⟩
  | found hash client hhash hpersistent hfind m hm => exact ⟨rfl,Or.inl rfl⟩
  | registered hash keyVault handshakes hhash hnone hkeyVault m hm =>
    dsimp only
    rw [Process.withRegistered,pid_clientRegister,calls_clientRegister]
    exact ⟨rfl,Or.inl rfl⟩

/-- One action. -/
theorem ResetBeforeUse.run (h : s.ResetBeforeUse) (hs : s.Sound pids) {action : Action Uri}
    (hrun : s.run action = some s') : s'.ResetBeforeUse ↔ s.ActsAfterReset action := by
  cases action with
  | construct E a =>
    cases hrun
    obtain ⟨hpid,hcalls⟩ := calls_construct hs E a
    simpa [ActsAfterReset] using h.of_clients hs hcalls hpid fun c hc => getElem?_construct E hs a hc
  | freeManager id =>
    simp only [Process.run] at hrun
    split at hrun
    · rename_i m hfind
      split at hrun
      · cases hrun
      · cases hrun
        have hframe := frame_freeManager s m
        simpa [ActsAfterReset] using h.of_clients hs (calls_freeManager s m) hframe.pid
          fun c _ => by rw [hframe.clients]
    · cases hrun
  | getServer id =>
    obtain ⟨m,-,rfl⟩ := Option.map_eq_some_iff.mp hrun
    have hserver : (s.addHandle .server m).ResetBeforeUse :=
      h.of_clients hs (Or.inl rfl) rfl fun _ _ => rfl
    simpa [ActsAfterReset] using hserver
  | operate through operation =>
    simp only [Process.run] at hrun
    split at hrun
    · rename_i createdByPid m htarget
      cases hrun
      rw [h.operate hs createdByPid (hs.target_mem htarget) operation,ActsAfterReset]
      constructor
      · intro hfirst createdByPid' m' htarget'
        cases htarget.symm.trans htarget'
        exact hfirst
      · exact fun hfirst => hfirst createdByPid m htarget
    · cases hrun
  | freeHandle id =>
    obtain ⟨handle,hfind,rfl⟩ := Option.map_eq_some_iff.mp hrun
    have hmem := hs.handleAlive handle (List.mem_of_find?_eq_some hfind)
    have hdrop : ResetBeforeUse { s with handles := s.handles.filter (·.id ≠ handle.id) } := h
    have hreset := hdrop.resetClientIfPidDiffers (hs.dropHandle handle) handle.createdByPid hmem
    have hfree : (s.freeHandle handle).ResetBeforeUse := by
      unfold Process.freeHandle
      dsimp only
      split
      · exact hdrop
      · exact hreset
      · exact hreset
    simpa [ActsAfterReset] using hfree

end

end Process

namespace World
variable {w w' : World} {Uri : Type}

/-- In every process an inherited client is reset before it is used, and once at most. -/
def ResetsBeforeUse (w : World) : Prop :=
  ∀ s ∈ w.processes, s.ResetBeforeUse ∧ ∀ c, s.calls.count (.reset c) ≤ 1

def ActsAfterReset (w : World) : Event Uri → Prop
  | .act pid action => ∀ s, w.findProcess pid = some s → s.ActsAfterReset action
  | _ => True

theorem Sound.resetsBeforeUse_iff (h : w.Sound) :
    w.ResetsBeforeUse ↔ ∀ s ∈ w.processes, s.ResetBeforeUse :=
  ⟨fun hw s hs => (hw s hs).1,fun hw s hs => ⟨hw s hs,(h.processes s hs).resetOnce⟩⟩

theorem Sound.resetsBeforeUse_step {e : Event Uri} (h : w.Sound) (hw : w.ResetsBeforeUse)
    (hstep : w.Step e w') : w'.ResetsBeforeUse ↔ w.ActsAfterReset e := by
  have hall := h.resetsBeforeUse_iff.mp hw
  rw [(h.step hstep).resetsBeforeUse_iff]
  rcases step_cases hstep with ⟨pid,action,s,s',rfl,hfind,hrun,hs',-,hmem⟩ |
    ⟨parent,child,s,rfl,hfind,-,-,rfl⟩ | ⟨pid,rfl,rfl⟩
  · have hs := (findProcess_mem hfind).1
    have hone := (hall s hs).run (h.processes s hs) hrun
    constructor
    · intro hall' t hfind'
      obtain rfl := Option.some.inj (hfind.symm.trans hfind')
      exact hone.mp (hall' s' hs')
    · intro hok t ht
      rcases hmem t ht with rfl | ⟨ht,-⟩
      · exact hone.mpr (hok s hfind)
      · exact hall t ht
  · refine ⟨fun _ => trivial,fun _ t ht => ?_⟩
    rcases List.mem_append.mp ht with ht | ht
    · exact hall t ht
    · obtain rfl := List.mem_singleton.mp ht
      intro client before record hsuffix
      exact absurd (List.suffix_nil.mp hsuffix) (List.cons_ne_nil _ _)
  · exact ⟨fun _ => trivial,fun _ t ht => hall t (List.mem_of_mem_filter ht)⟩

/-- Where a run has met the condition so far, its next step resets before it uses exactly if it
meets it too. -/
theorem resetsBeforeUse_of_reaches {pid : ℕ} (hpid : pid ≠ 0)
    (hw : Reaches (@World.Step Uri) ActsAfterReset (World.start pid) w) :
    w.ResetsBeforeUse ∧ ∀ (e : Event Uri) w', w.Step e w' →
      (w'.ResetsBeforeUse ↔ w.ActsAfterReset e) := by
  have hboth := hw.invariant (I:=fun w => w.Sound ∧ w.ResetsBeforeUse)
    (fun v e v' hv hok hstep =>
      ⟨hv.1.step hstep,(hv.1.resetsBeforeUse_step hv.2 hstep).mpr hok⟩)
    ⟨Sound.start hpid,(Sound.start hpid).resetsBeforeUse_iff.mpr fun s hs => by
      obtain rfl := List.mem_singleton.mp hs
      intro client before record hsuffix
      exact absurd (List.suffix_nil.mp hsuffix) (List.cons_ne_nil _ _)⟩
  exact ⟨hboth.2,fun e w' hstep => hboth.1.resetsBeforeUse_step hboth.2 hstep⟩

theorem reaches_child {ok : World → Event PlainUri → Prop}
    (hvault : ok (World.start 1) (.act 1 (.construct Outside.plain .vault)))
    (hencrypted : ok ⟨[Process.vault],[1]⟩ (.act 1 (.construct Outside.plain .encrypted)))
    (hfork : ok ⟨[Process.encrypted],[1]⟩ (.fork 1 2))
    (hexit : ok ⟨[Process.encrypted,Process.encrypted.fork 2],[1,2]⟩ (.exit 1)) :
    Reaches World.Step ok (World.start 1) ⟨[Process.encrypted.fork 2],[1,2]⟩ :=
  (((Reaches.refl.tail _ hvault step_vault).tail _ hencrypted step_encrypted).tail
    (.fork 1 2) hfork rfl).tail (.exit 1) hexit rfl

/-- The child queries through the Manager it inherited, whose clients are the parent's. -/
theorem resetsBeforeUse_of_reaches_child : ∃ s,
    (Process.encrypted.fork 2).run (.operate (.manager 1) (.execute true) : Action PlainUri) =
      some s ∧
    s.calls = [.use 1,.reset 1,.reset 0] ∧ ResetsBeforeUse ⟨[s],[1,2]⟩ ∧
    ∀ (e : Event PlainUri) w', Step ⟨[s],[1,2]⟩ e w' →
      (w'.ResetsBeforeUse ↔ ActsAfterReset ⟨[s],[1,2]⟩ e) := by
  let child := Process.encrypted.fork 2
  let query : Action PlainUri := .operate (.manager 1) (.execute true)
  obtain ⟨s,hs⟩ : ∃ s, child.run query = some s := ⟨_,rfl⟩
  have hpid : ∀ t ∈ child.target (.execute true) (.manager 1), t.1 ≠ child.pid := by
    decide +kernel
  have hkeyVault : ∀ t ∈ child.target (.execute true) (.manager 1),
      t.2.keyVaultClientManager.isSome := by
    decide +kernel
  have hquery : ActsAfterReset ⟨[child],[1,2]⟩ (.act 2 query) := by
    intro t ht
    obtain rfl := Option.some.inj ((rfl : findProcess ⟨[child],[1,2]⟩ 2 = _).symm.trans ht)
    intro createdByPid m htarget _ client record _ _ _
    exact ⟨Or.inl (hpid _ htarget),fun k _ => Or.inl ⟨hpid _ htarget,hkeyVault _ htarget⟩⟩
  have hchild : Reaches World.Step ActsAfterReset (World.start 1) ⟨[child],[1,2]⟩ :=
    reaches_child (fun t ht => by trivial) (fun t ht => by trivial) trivial trivial
  refine ⟨s,hs,?_,resetsBeforeUse_of_reaches (by decide)
    (hchild.tail _ hquery (step_single child query hs))⟩
  cases hs
  decide +kernel

/-- A child gets a Server from the Manager it inherited and runs a command on it. -/
theorem not_resetsBeforeUse : ∃ w, Reaches (@World.Step PlainUri) always (World.start 1) w ∧
    ¬ w.ResetsBeforeUse := by
  let child := Process.encrypted.fork 2
  have hexit : Reaches (@World.Step PlainUri) always (World.start 1) ⟨[child],[1,2]⟩ :=
    reaches_child trivial trivial trivial trivial
  let server : Action PlainUri := .getServer 0
  let command : Action PlainUri := .operate (.server 2) (.execute false)
  obtain ⟨s,hs⟩ : ∃ s, child.run server = some s := ⟨_,rfl⟩
  obtain ⟨s',hs'⟩ : ∃ s', s.run command = some s' := by
    cases hs
    exact ⟨_,rfl⟩
  refine ⟨⟨[s'],[1,2]⟩,(hexit.tail _ trivial (step_single child server hs)).tail _ trivial
    (step_single s command hs'),fun hresets => ?_⟩
  have hbefore := (hresets s' (List.mem_singleton.mpr rfl)).1
  cases hs
  cases hs'
  exact absurd (hbefore 0 [] ⟨1,none⟩ (List.suffix_refl _) rfl (by decide)).1 List.not_mem_nil

end World

end Phongo
