import Mathlib.Tactic.Common
import Phongo.Manager.Steps

/-! Key vault Managers.
A Manager refers to the Manager whose client is the key vault client of its own, unless it found
its client in the persistent registry: that path sets nothing but the client. -/
namespace Phongo
open OrderedTable Transition

namespace Process
variable {s s' : Process} {pids : List ℕ} {m : Manager}

/-- A Manager whose client has a key vault client refers to the owner of the latter, and resets
both. -/
def HoldsKeyVault (s : Process) (m : Manager) : Prop :=
  ∀ client record k, m.client = some client → s.clients[client]? = some record →
    record.keyVaultClient = some k →
    (∃ keyVault ∈ s.objects, m.keyVaultClientManager = some keyVault ∧
      keyVault.client = some k) ∧
    ClientCall.reset k ∈ (s.clientResetOnce m).calls ∧
    ClientCall.reset client ∈ (s.clientResetOnce m).calls

def Linked (s : Process) (m : Manager) : Prop :=
  ∀ client record, m.client = some client → s.clients[client]? = some record →
    record.keyVaultClient.isSome → m.keyVaultClientManager.isSome

theorem Sound.holdsKeyVault_iff (h : s.Sound pids) (hm : m ∈ s.objects) :
    s.HoldsKeyVault m ↔ s.Linked m := by
  constructor
  · intro hholds client record hclient hrecord hk
    obtain ⟨k,hk⟩ := Option.isSome_iff_exists.mp hk
    obtain ⟨⟨keyVault,-,hkeyVault,-⟩,-⟩ := hholds client record k hclient hrecord hk
    rw [hkeyVault,Option.isSome_some]
  · intro hlinked client record k hclient hrecord hk
    obtain ⟨keyVault,hkeyVault⟩ := Option.isSome_iff_exists.mp
      (hlinked client record hclient hrecord (by rw [hk,Option.isSome_some]))
    obtain ⟨client',record',hown⟩ := h.owns m hm
    obtain rfl := Option.some.inj (hclient.symm.trans hown.client_eq)
    obtain rfl := Option.some.inj (hrecord.symm.trans hown.record_eq)
    have hkc : keyVault.client = some k := (hown.keyVault keyVault hkeyVault).symm.trans hk
    refine ⟨⟨keyVault,h.keyVaultAlive m hm keyVault hkeyVault,hkeyVault,hkc⟩,?_,?_⟩
    · rw [h.clientResetOnce_eq hm,mem_calls_resetClients]
      exact Or.inr ⟨k,Manager.mem_chain_keyVault hkeyVault hkc,rfl⟩
    · rw [h.clientResetOnce_eq hm,mem_calls_resetClients]
      exact Or.inr ⟨client,Manager.mem_chain_self hclient,rfl⟩

theorem Linked.of_clients (h : s.Linked m) {client : ℕ} {record : MongocClient}
    (hrecord : s.clients[client]? = some record) (hclient : m.client = some client)
    (hkept : s'.clients[client]? = some record) : s'.Linked m := by
  intro client' record' hclient' hrecord' hk
  obtain rfl := Option.some.inj (hclient.symm.trans hclient')
  obtain rfl := Option.some.inj (hkept.symm.trans hrecord')
  exact h client record hclient hrecord hk

section Construct
variable {Uri : Type} (E : Outside Uri) {a : ManagerArgs}

/-- The arguments lead to a persistent client that has a key vault client. -/
def FindsKeyVault (s : Process) (a : ManagerArgs) : Prop :=
  usePersistentClient a.driverOptions = true ∧
    ∃ hash client record, E.makeClientHash s a [] = (some hash,[]) ∧
      s.findPersistentClient hash = some client ∧ s.clients[client]? = some record ∧
      record.keyVaultClient.isSome

theorem Linked.construct (h : s.Sound pids) (hlinked : ∀ m ∈ s.objects, s.Linked m)
    (hfinds : ¬ FindsKeyVault E s a) :
    ∀ m ∈ (E.construct s a).1.objects, (E.construct s a).1.Linked m := by
  have hold : ∀ m ∈ s.objects, (E.construct s a).1.Linked m := fun m hm => by
    obtain ⟨client,record,hown⟩ := h.owns m hm
    exact (hlinked m hm).of_clients hown.record_eq hown.client_eq
      ((getElem?_construct E h a hown.lt).trans hown.record_eq)
  have hconstructs := construct_constructs E h a
  generalize E.construct s a = r at hconstructs hold
  cases hconstructs with
  | failed records handshakes calls eg hrecords hcalls hne => exact hold
  | left hash keyVault handshakes eg hhash hpersistent hnone hkeyVault hne =>
    rw [objects_withRegistered]
    exact hold
  | found hash client hhash hpersistent hfind m hm =>
    intro m' hm'
    rcases List.mem_append.mp hm' with hm' | hm'
    · exact hold m' hm'
    · obtain rfl := List.mem_singleton.mp hm'
      intro client' record hclient hrecord hk
      rw [hm] at hclient
      obtain rfl := Option.some.inj hclient
      exact absurd ⟨hpersistent,hash,client,record,hhash,hfind,hrecord,hk⟩ hfinds
  | registered hash keyVault handshakes hhash hnone hkeyVault m hm =>
    intro m' hm'
    rcases List.mem_append.mp hm' with hm' | hm'
    · exact hold m' hm'
    · obtain rfl := List.mem_singleton.mp hm'
      intro client record hclient hrecord hk
      rw [hm] at hclient
      obtain rfl := Option.some.inj hclient
      have hnew : (s.createManager.2.withRegistered handshakes m').clients[s.clients.length]? =
          some (s.createManager.2.newRecord m') := by
        simp [Process.withRegistered,newRecord,Process.createManager]
      obtain rfl := Option.some.inj (hnew.symm.trans hrecord)
      cases hkv : m'.keyVaultClientManager with
      | none => simp [newRecord,hkv] at hk
      | some keyVault => rfl

/-- A Manager that finds such a client does not hold its key vault. -/
theorem not_linked_construct (h : s.Sound pids) (hfinds : FindsKeyVault E s a) :
    ∃ m ∈ (E.construct s a).1.objects, ¬ (E.construct s a).1.Linked m := by
  obtain ⟨hpersistent,hash,client,record,hhash,hfind,hrecord,hk⟩ := hfinds
  have hhash' : E.makeClientHash s.createManager.2 a [] = (some hash,[]) := hhash
  have hfind' : s.createManager.2.findPersistentClient hash = some client := hfind
  have hinit : E.managerInit s.createManager.2 s.createManager.1 a =
      ⟨s.createManager.2,s.createManager.1.withClient hash true client none,[]⟩ := by
    simp only [Outside.managerInit,hhash',hpersistent,if_true,hfind']
    rfl
  refine ⟨s.createManager.1.withClient hash true client none,?_,?_⟩
  · rw [Outside.construct,hinit,register_of_nil h.isFresh.managers]
    exact List.mem_append_right _ (List.mem_singleton.mpr rfl)
  · intro hlinked
    have hlt : client < s.clients.length := (List.getElem?_eq_some_iff.mp hrecord).1
    have hsome := hlinked client record rfl ((getElem?_construct E h a hlt).trans hrecord) hk
    cases hsome

end Construct

end Process

namespace World
variable {w w' : World} {Uri : Type}

/-- No Manager is constructed upon a persistent client that has a key vault client. -/
def LinksKeyVault (w : World) : Event Uri → Prop
  | .act pid (.construct E a) => ∀ s, w.findProcess pid = some s → ¬ Process.FindsKeyVault E s a
  | _ => True

/-- Every Manager of every process holds its key vault. -/
def HoldsKeyVaults (w : World) : Prop := ∀ s ∈ w.processes, ∀ m ∈ s.objects, s.HoldsKeyVault m

theorem Sound.linked_step {e : Event Uri} (h : w.Sound)
    (hlinked : ∀ s ∈ w.processes, ∀ m ∈ s.objects, s.Linked m) (hstep : w.Step e w')
    (hok : w.LinksKeyVault e) : ∀ s ∈ w'.processes, ∀ m ∈ s.objects, s.Linked m := by
  rcases step_cases hstep with ⟨pid,action,s,s',rfl,hfind,hrun,-,-,hmem⟩ |
    ⟨parent,child,s,-,hfind,-,-,rfl⟩ | ⟨pid,-,rfl⟩
  · obtain ⟨hs,-⟩ := findProcess_mem hfind
    have hsound := h.processes s hs
    have hs' : ∀ m ∈ s'.objects, s'.Linked m := by
      rcases hsound.run_cases hrun with ⟨E,a,rfl,rfl⟩ | ⟨-,hframe⟩
      · exact Process.Linked.construct E hsound (hlinked s hs) (hok s hfind)
      · intro m hm client record hclient hrecord hk
        rw [hframe.clients] at hrecord
        exact hlinked s hs m (hframe.objects hm) client record hclient hrecord hk
    intro t ht
    rcases hmem t ht with rfl | ⟨ht,-⟩
    · exact hs'
    · exact hlinked t ht
  · intro t ht
    rcases List.mem_append.mp ht with ht | ht
    · exact hlinked t ht
    · obtain rfl := List.mem_singleton.mp ht
      exact hlinked s (findProcess_mem hfind).1
  · exact fun t ht => hlinked t (List.mem_of_mem_filter ht)

theorem Sound.holdsKeyVaults_iff (h : w.Sound) :
    w.HoldsKeyVaults ↔ ∀ s ∈ w.processes, ∀ m ∈ s.objects, s.Linked m :=
  ⟨fun hw s hs m hm => ((h.processes s hs).holdsKeyVault_iff hm).mp (hw s hs m hm),
    fun hw s hs m hm => ((h.processes s hs).holdsKeyVault_iff hm).mpr (hw s hs m hm)⟩

/-- Where a run has met the condition so far, its next step keeps the key vaults held exactly if
it meets it too. -/
theorem holdsKeyVaults_of_reaches {pid : ℕ} (hpid : pid ≠ 0)
    (hw : Reaches (@World.Step Uri) LinksKeyVault (World.start pid) w) :
    w.HoldsKeyVaults ∧ ∀ (e : Event Uri) w', w.Step e w' →
      (w'.HoldsKeyVaults ↔ w.LinksKeyVault e) := by
  have hsound := sound_of_reaches hpid hw
  have hlinked : ∀ s ∈ w.processes, ∀ m ∈ s.objects, s.Linked m := by
    have hboth := hw.invariant
      (I:=fun w => w.Sound ∧ ∀ s ∈ w.processes, ∀ m ∈ s.objects, s.Linked m)
      (fun v e v' hv hok hstep => ⟨hv.1.step hstep,hv.1.linked_step hv.2 hstep hok⟩)
      ⟨Sound.start hpid,fun s hs m hm => by
        obtain rfl := List.mem_singleton.mp hs
        cases hm⟩
    exact hboth.2
  refine ⟨hsound.holdsKeyVaults_iff.mpr hlinked,fun e w' hstep => ?_⟩
  have hsound' := hsound.step hstep
  rw [hsound'.holdsKeyVaults_iff]
  constructor
  · intro hlinked'
    cases e with
    | fork parent child => trivial
    | exit pid => trivial
    | act pid action =>
      cases action with
      | construct E a =>
        intro s hfind hfinds
        obtain ⟨m,hm,hnot⟩ := Process.not_linked_construct E
          (hsound.processes s (findProcess_mem hfind).1) hfinds
        rcases step_cases hstep with ⟨pid',action,t,t',he,hfind',hrun,hmem,-,-⟩ |
          ⟨_,_,_,he,-⟩ | ⟨_,he,-⟩
        · cases he
          obtain rfl := Option.some.inj (hfind.symm.trans hfind')
          cases hrun
          exact hnot (hlinked' _ hmem m hm)
        · cases he
        · cases he
      | _ => trivial
  · exact fun hok => hsound.linked_step hlinked hstep hok

end World

namespace World

/-- The Manager that made the encrypting client holds its key vault. -/
theorem holdsKeyVaults_of_reaches_encrypted :
    (∃ m ∈ Process.encrypted.objects, m.keyVaultClientManager.isSome) ∧
    HoldsKeyVaults ⟨[Process.encrypted],[1]⟩ ∧
    ∀ (e : Event PlainUri) w', Step ⟨[Process.encrypted],[1]⟩ e w' →
      (w'.HoldsKeyVaults ↔ LinksKeyVault ⟨[Process.encrypted],[1]⟩ e) := by
  have hfirst : (World.start 1).LinksKeyVault (.act 1 (.construct Outside.plain .vault)) := by
    intro s hs hfinds
    obtain rfl := Option.some.inj ((rfl : (World.start 1).findProcess 1 = _).symm.trans hs)
    obtain ⟨-,hash,client,record,-,hfind,-⟩ := hfinds
    cases hfind
  have hsecond : LinksKeyVault ⟨[Process.vault],[1]⟩
      (.act 1 (.construct Outside.plain .encrypted)) := by
    intro s hs hfinds
    obtain rfl := Option.some.inj ((rfl : findProcess ⟨[Process.vault],[1]⟩ 1 = _).symm.trans hs)
    obtain ⟨-,hash,client,record,hhash,hfind,-⟩ := hfinds
    have hdata : Outside.plain.makeClientHash Process.vault .encrypted [] =
        (some (hashPrefix 1 ++ ascii "mongodb://data"),[]) := by decide +kernel
    have hnone : Process.vault.findPersistentClient (hashPrefix 1 ++ ascii "mongodb://data") =
        none := by decide +kernel
    rw [hdata] at hhash
    cases hhash
    rw [hnone] at hfind
    cases hfind
  exact ⟨by decide +kernel,holdsKeyVaults_of_reaches (by decide)
    ((Reaches.refl.tail _ hfirst step_vault).tail _ hsecond step_encrypted)⟩

/-- The second Manager with the same arguments finds the client of the first, and refers to no
key vault Manager. -/
theorem not_holdsKeyVaults : ∃ w, Reaches (@World.Step PlainUri) always (World.start 1) w ∧
    ¬ w.HoldsKeyVaults := by
  let s₂ := Process.encrypted
  let s₃ := (Outside.plain.construct s₂ .encrypted).1
  have hsecond : Reaches (@World.Step PlainUri) always (World.start 1) ⟨[s₂],[1]⟩ :=
    (Reaches.refl.tail _ trivial step_vault).tail _ trivial step_encrypted
  have hthird : Reaches (@World.Step PlainUri) always (World.start 1) ⟨[s₃],[1]⟩ :=
    hsecond.tail _ trivial (step_single s₂ (.construct Outside.plain .encrypted) rfl)
  have hsound := (sound_of_reaches (by decide) hsecond).processes s₂ (List.mem_singleton.mpr rfl)
  have hfinds : Process.FindsKeyVault Outside.plain s₂ .encrypted :=
    ⟨rfl,hashPrefix 1 ++ ascii "mongodb://data",1,⟨1,some 0⟩,by decide +kernel,by decide +kernel,
      by decide +kernel,rfl⟩
  refine ⟨⟨[s₃],[1]⟩,hthird,fun hholds => ?_⟩
  obtain ⟨m,hm,hnot⟩ := Process.not_linked_construct Outside.plain hsound hfinds
  have hsound₃ := (sound_of_reaches (by decide) hthird).processes s₃ (List.mem_singleton.mpr rfl)
  exact hnot ((hsound₃.holdsKeyVault_iff hm).mp (hholds s₃ (List.mem_singleton.mpr rfl) m hm))

end World

end Phongo
