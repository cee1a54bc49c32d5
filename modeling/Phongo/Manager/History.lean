import Mathlib.Tactic.Common
import Phongo.Manager.Sharing

/-! Runs with the log of all constructions, and what Managers with the same client have in
common. -/
namespace Phongo
open OrderedTable Transition

/-- A world and the constructions so far, oldest first. -/
structure History where
  world : World
  log : List Construction

namespace World
variable {Uri : Type}

def constructed (w : World) : Event Uri → List Construction
  | .act pid (.construct _ a) => ((w.findProcess pid).map (·.construction a)).toList
  | _ => []

/-- Where a client hash is made, `php_var_serialize` writes `ser` of a value in `S`. -/
def Serializes (ser : HashArgs → Bytes) (S : Set HashArgs) (w : World) : Event Uri → Prop
  | .act pid (.construct E a) => ∀ s, w.findProcess pid = some s →
      ∀ hash, E.makeClientHash s a [] = (some hash,[]) →
        (s.construction a).prepared ∈ S ∧
          E.serialized (s.construction a) = ser (s.construction a).prepared
  | _ => True

/-- A construction that finds its client in the registry has a Manager for the "keyVaultClient"
option, if it has the option. -/
def NamesKeyVault (w : World) : Event Uri → Prop
  | .act pid (.construct E a) => ∀ s, w.findProcess pid = some s → ∀ hash client,
      usePersistentClient a.driverOptions = true → E.makeClientHash s a [] = (some hash,[]) →
        s.findPersistentClient hash = some client → (s.construction a).Named
  | _ => True

end World

namespace History
variable {Uri : Type}

def Step (h : History) (e : Event Uri) (h' : History) : Prop :=
  h.world.Step e h'.world ∧ h'.log = h.log ++ h.world.constructed e

def start (pid : ℕ) : History := ⟨World.start pid,[]⟩

end History

/-- A persistent client belongs to Managers that this process, or the one it was forked from,
constructed alike, and each client was made with its Manager and is still there. -/
structure Process.SharesClients (log : List Construction) (s : Process) : Prop where
  constructed : ∀ m ∈ s.objects, ∃ c ∈ log, c.Makes m
  alike : ∀ m ∈ s.objects, ∀ m' ∈ s.objects, m.usePersistentClient = true → m.client = m'.client →
    ∀ c ∈ log, ∀ c' ∈ log, c.Makes m → c'.Makes m' → c.pid = c'.pid ∧ c.compared = c'.compared
  alive : ∀ m ∈ s.objects, ∃ client record, m.client = some client ∧
    s.clients[client]? = some record ∧ record.createdIn = m.createdByPid ∧
    ClientCall.destroy client ∉ s.calls

/-- An entry of the log was made by a process that knows its number. -/
structure History.Numbered (h : History) : Prop where
  known : ∀ c ∈ h.log, c.pid ∈ h.world.pids
  made : ∀ s ∈ h.world.processes, ∀ c ∈ h.log, c.pid = s.pid → c.id < s.made
  unique : (h.log.map fun c => (c.pid,c.id)).Nodup

/-- The invariant of a run in which arguments are told apart by their serialization. -/
structure History.Recorded (ser : HashArgs → Bytes) (S : Set HashArgs) (h : History) : Prop where
  sound : h.world.Sound
  processes : ∀ s ∈ h.world.processes, s.Recorded ser S h.log
  keyVaults : KeyVaultsRecorded ser S h.log
  numbered : h.Numbered

section
variable {ser : HashArgs → Bytes} {S : Set HashArgs} {s s' : Process} {cs : List Construction}
  {pids : List ℕ} {Uri : Type}

theorem Process.Frame.finds {c : Construction} (hframe : s.Frame s') (h : s.Finds c) :
    s'.Finds c :=
  h.mono fun hash client hfind => by rw [hframe.persistent]; exact hfind

theorem Process.Recorded.frame (h : s.Recorded ser S cs) (hframe : s.Frame s') :
    s'.Recorded ser S cs := by
  refine ⟨fun m hm => ?_,fun hash client hfind => ?_⟩
  · obtain ⟨c,hc,hhashes,hfinds⟩ := h.objects m (hframe.objects hm)
    exact ⟨c,hc,hhashes,fun hp => hframe.finds (hfinds hp)⟩
  · rw [hframe.persistent] at hfind
    obtain ⟨c,hc,hhash,hmem,hfinds⟩ := h.entries hash client hfind
    exact ⟨c,hc,hhash,hmem,hframe.finds hfinds⟩

theorem Process.Recorded.append (h : s.Recorded ser S cs) (cs' : List Construction) :
    s.Recorded ser S (cs ++ cs') := by
  refine ⟨fun m hm => ?_,fun hash client hfind => ?_⟩
  · obtain ⟨c,hc,hrest⟩ := h.objects m hm
    exact ⟨c,List.mem_append_left _ hc,hrest⟩
  · obtain ⟨c,hc,hrest⟩ := h.entries hash client hfind
    exact ⟨c,List.mem_append_left _ hc,hrest⟩

theorem Process.Recorded.fork (h : s.Recorded ser S cs) (child : ℕ) :
    (s.fork child).Recorded ser S cs := by
  refine ⟨fun m hm => ?_,fun hash client hfind => ?_⟩
  · obtain ⟨c,hc,hhashes,hfinds⟩ := h.objects m hm
    exact ⟨c,hc,hhashes,fun hp => (hfinds hp).mono fun _ _ hfind => hfind⟩
  · obtain ⟨c,hc,hhash,hmem,hfinds⟩ := h.entries hash client hfind
    exact ⟨c,hc,hhash,hmem,hfinds.mono fun _ _ hfind => hfind⟩

/-- Two entries of the log for one Manager are the same. -/
theorem History.Numbered.eq {h : History} (hnumbered : h.Numbered) {m : Manager}
    {c c' : Construction} (hc : c ∈ h.log) (hc' : c' ∈ h.log) (hm : c.Makes m)
    (hm' : c'.Makes m) : c = c' := by
  refine List.inj_on_of_nodup_map hnumbered.unique hc hc' ?_
  rw [hm.pid,hm'.pid,hm.id,hm'.id]

/-- A Manager with the client of a persistent one is persistent. -/
theorem Process.Sound.persistent_of_client (h : s.Sound pids) {m m' : Manager}
    (hm : m ∈ s.objects) (hm' : m' ∈ s.objects) (hp : m.usePersistentClient = true)
    (hclient : m.client = m'.client) : m'.usePersistentClient = true := by
  by_contra hp'
  obtain ⟨hash,client,hhash,hmc,hfind⟩ := h.findPersistentClient hm hp
  obtain ⟨p,hp,hpc⟩ := Option.map_eq_some_iff.mp hfind
  obtain ⟨client',record,hown⟩ := h.owns m' hm'
  have hreg := hown.registered
  rw [Process.Registered,if_neg hp'] at hreg
  obtain ⟨q,hq,hqc⟩ := hreg
  have hnodup := h.clientsNodup
  rw [Process.pclients,List.map_append,List.nodup_append] at hnodup
  have hmem : p ∈ s.persistentClients.map (·.2) :=
    List.mem_map.mpr ⟨_,mem_of_find?_eq_some _ _ _ hp,rfl⟩
  refine hnodup.2.2 p.client (List.mem_map_of_mem hmem) q.client (List.mem_map_of_mem hq) ?_
  rw [hpc,hqc]
  exact Option.some.inj (hmc.symm.trans (hclient.trans hown.client_eq))

theorem History.Recorded.sharesClients {h : History} (hh : h.Recorded ser S)
    (hser : Set.InjOn ser S) (hs : s ∈ h.world.processes) (haged : s.Aged h.world.pids) :
    s.SharesClients h.log := by
  have hsound := hh.sound.processes s hs
  have hrecorded := hh.processes s hs
  refine ⟨fun m hm => ?_,fun m hm m' hm' hp hclient c hc c' hc' hmakes hmakes' => ?_,
    fun m hm => ?_⟩
  · obtain ⟨c,hc,hhashes,-⟩ := hrecorded.objects m hm
    exact ⟨c,hc,hhashes.toMakes⟩
  · have hp' := hsound.persistent_of_client hm hm' hp hclient
    obtain ⟨d,hd,d',hd',hdm,hdm',hpid,hcompared⟩ :=
      hrecorded.compared_eq hsound hser hm hm' hp hp' hclient
    rw [hh.numbered.eq hc hd hmakes hdm,hh.numbered.eq hc' hd' hmakes' hdm']
    exact ⟨hpid,hcompared⟩
  · obtain ⟨client,record,hown⟩ := hsound.owns m hm
    obtain ⟨p,hp,hpc⟩ := hown.registered.mem_pclients
    exact ⟨client,record,hown.client_eq,hown.record_eq,hown.createdIn,hpc ▸ haged.alive p hp⟩

/-- Nothing is constructed: every process has made what it had made before, or is new. -/
theorem History.Numbered.of_log {h h' : History} (hnumbered : h.Numbered)
    (hlog : h'.log = h.log) (hpids : h.world.pids ⊆ h'.world.pids)
    (hold : ∀ t ∈ h'.world.processes, t.pid ∉ h.world.pids ∨
      ∃ s ∈ h.world.processes, s.pid = t.pid ∧ s.made ≤ t.made) : h'.Numbered := by
  refine ⟨fun c hc => ?_,fun t ht c hc hcpid => ?_,hlog ▸ hnumbered.unique⟩
  · rw [hlog] at hc
    exact hpids (hnumbered.known c hc)
  · rw [hlog] at hc
    rcases hold t ht with hnew | ⟨s,hs,hpid,hmade⟩
    · exact absurd (hcpid ▸ hnumbered.known c hc) hnew
    · exact (hnumbered.made s hs c hc (hcpid.trans hpid.symm)).trans_le hmade

/-- A process constructs a manager, with the next number it has. -/
theorem History.Numbered.construct {h h' : History} {s t : Process} {c : Construction}
    (hnumbered : h.Numbered) (hs : s ∈ h.world.processes) (hknown : s.pid ∈ h.world.pids)
    (hpids : h'.world.pids = h.world.pids) (hlog : h'.log = h.log ++ [c])
    (hcpid : c.pid = s.pid) (hid : c.id = s.made) (htpid : t.pid = s.pid)
    (hmade : t.made = s.made + 1)
    (hmem : ∀ t' ∈ h'.world.processes, t' = t ∨ (t' ∈ h.world.processes ∧ t'.pid ≠ s.pid)) :
    h'.Numbered := by
  refine ⟨fun c' hc' => ?_,fun t' ht' c' hc' hpid => ?_,?_⟩
  · rw [hpids]
    rw [hlog] at hc'
    rcases List.mem_append.mp hc' with hc' | hc'
    · exact hnumbered.known c' hc'
    · obtain rfl := List.mem_singleton.mp hc'
      exact hcpid ▸ hknown
  · rw [hlog] at hc'
    rcases hmem t' ht' with rfl | ⟨ht',hne⟩
    · rw [hmade]
      rcases List.mem_append.mp hc' with hc' | hc'
      · exact (hnumbered.made s hs c' hc' (hpid.trans htpid)).trans (Nat.lt_succ_self _)
      · obtain rfl := List.mem_singleton.mp hc'
        exact hid ▸ Nat.lt_succ_self _
    · rcases List.mem_append.mp hc' with hc' | hc'
      · exact hnumbered.made t' ht' c' hc' hpid
      · obtain rfl := List.mem_singleton.mp hc'
        exact absurd (hpid.symm.trans hcpid) hne
  · rw [hlog,List.map_append,List.nodup_append]
    refine ⟨hnumbered.unique,List.nodup_singleton _,fun x hx y hy hxy => ?_⟩
    obtain ⟨c',hc',rfl⟩ := List.mem_map.mp hx
    obtain rfl := List.mem_singleton.mp hy
    obtain ⟨hpid,hid'⟩ := Prod.mk.inj hxy
    exact (hnumbered.made s hs c' hc' (hpid.trans hcpid)).ne (hid'.trans hid)

theorem History.Numbered.step {h h' : History} {e : Event Uri} (hnumbered : h.Numbered)
    (hsound : h.world.Sound) (hstep : h.Step e h') : h'.Numbered := by
  obtain ⟨hworld,hlog⟩ := hstep
  rcases World.step_cases hworld with ⟨pid,action,s,s',rfl,hfind,hrun,-,hpids,hmem⟩ |
    ⟨parent,child,s,rfl,hfind,-,hnew,hw⟩ | ⟨pid,rfl,hw⟩
  · obtain ⟨hs,hpid⟩ := World.findProcess_mem hfind
    rcases (hsound.processes s hs).run_cases hrun with ⟨E,a,rfl,rfl⟩ | ⟨hne,hframe⟩
    · obtain ⟨hsame,hmade⟩ := Process.made_construct E (hsound.processes s hs) a
      simp only [World.constructed,hfind,Option.map_some,Option.toList_some] at hlog
      exact hnumbered.construct hs (hsound.processes s hs).pid_mem hpids hlog rfl rfl hsame hmade
        fun t ht => (hmem t ht).imp_right fun ⟨ht,hne⟩ => ⟨ht,hpid ▸ hne⟩
    · have hsame : h'.log = h.log := by
        rw [hlog]
        cases action with
        | construct E a => exact absurd rfl (hne E a)
        | _ => exact List.append_nil _
      refine hnumbered.of_log hsame (hpids ▸ List.Subset.refl _) fun t ht => Or.inr ?_
      rcases hmem t ht with rfl | ⟨ht,-⟩
      · exact ⟨s,hs,hframe.pid.symm,hframe.made⟩
      · exact ⟨t,ht,rfl,le_rfl⟩
  · refine hnumbered.of_log (hlog.trans (List.append_nil _)) ?_ fun t ht => ?_
    · rw [hw]
      exact List.subset_append_left _ _
    · rw [hw] at ht
      rcases List.mem_append.mp ht with ht | ht
      · exact Or.inr ⟨t,ht,rfl,le_rfl⟩
      · obtain rfl := List.mem_singleton.mp ht
        exact Or.inl hnew
  · refine hnumbered.of_log (hlog.trans (List.append_nil _)) ?_ fun t ht => Or.inr ?_
    · rw [hw]
      exact List.Subset.refl _
    · rw [hw] at ht
      exact ⟨t,List.mem_of_mem_filter ht,rfl,le_rfl⟩

/-- One event. -/
theorem History.Recorded.step {h h' : History} {e : Event Uri} (hh : h.Recorded ser S)
    (hser : Set.InjOn ser S) (hserializes : h.world.Serializes ser S e)
    (hnames : h.world.NamesKeyVault e) (hstep : h.Step e h') : h'.Recorded ser S := by
  have hnumbered := hh.numbered.step hh.sound hstep
  have hsound := hh.sound.step hstep.1
  obtain ⟨hworld,hlog⟩ := hstep
  rcases World.step_cases hworld with ⟨pid,action,s,s',rfl,hfind,hrun,-,-,hmem⟩ |
    ⟨parent,child,s,rfl,hfind,-,-,hw⟩ | ⟨pid,rfl,hw⟩
  · obtain ⟨hs,-⟩ := World.findProcess_mem hfind
    rcases (hh.sound.processes s hs).run_cases hrun with ⟨E,a,rfl,rfl⟩ | ⟨hne,hframe⟩
    · simp only [World.constructed,hfind,Option.map_some,Option.toList_some] at hlog
      refine ⟨hsound,fun t ht => ?_,?_,hnumbered⟩
      · rw [hlog]
        rcases hmem t ht with rfl | ⟨ht,-⟩
        · exact (hh.processes s hs).construct (hh.sound.processes s hs) hh.keyVaults hser
            (hserializes s hfind) (hnames s hfind)
        · exact (hh.processes t ht).append _
      · rw [hlog]
        exact hh.keyVaults.construct (hh.processes s hs) a
    · have hsame : h'.log = h.log := by
        rw [hlog]
        cases action with
        | construct E a => exact absurd rfl (hne E a)
        | _ => exact List.append_nil _
      refine ⟨hsound,fun t ht => ?_,hsame ▸ hh.keyVaults,hnumbered⟩
      rw [hsame]
      rcases hmem t ht with rfl | ⟨ht,-⟩
      · exact (hh.processes s hs).frame hframe
      · exact hh.processes t ht
  · have hsame : h'.log = h.log := hlog.trans (List.append_nil _)
    refine ⟨hsound,fun t ht => ?_,hsame ▸ hh.keyVaults,hnumbered⟩
    rw [hw] at ht
    rw [hsame]
    rcases List.mem_append.mp ht with ht | ht
    · exact hh.processes t ht
    · obtain rfl := List.mem_singleton.mp ht
      exact (hh.processes s (World.findProcess_mem hfind).1).fork child
  · have hsame : h'.log = h.log := hlog.trans (List.append_nil _)
    refine ⟨hsound,fun t ht => ?_,hsame ▸ hh.keyVaults,hnumbered⟩
    rw [hw] at ht
    rw [hsame]
    exact hh.processes t (List.mem_of_mem_filter ht)

theorem History.Recorded.start {pid : ℕ} (hpid : pid ≠ 0) : (History.start pid).Recorded ser S := by
  refine ⟨World.Sound.start hpid,fun s hs => ?_,fun c hc => absurd hc List.not_mem_nil,
    fun c hc => absurd hc List.not_mem_nil,fun _ _ c hc => absurd hc List.not_mem_nil,
    List.nodup_nil⟩
  obtain rfl := List.mem_singleton.mp hs
  exact ⟨fun m hm => absurd hm List.not_mem_nil,fun _ _ hfind => by cases hfind⟩

/-- The world of a run with a log has been reached without. -/
theorem History.reaches_world {ok : History → Event Uri → Prop} {pid : ℕ} {h : History}
    (hh : Reaches History.Step ok (History.start pid) h) :
    Reaches (@World.Step Uri) always (World.start pid) h.world :=
  hh.invariant (I:=fun h => Reaches (@World.Step Uri) always (World.start pid) h.world)
    (fun _ e _ hv _ hstep => hv.tail e trivial hstep.1) Reaches.refl

end

namespace History
variable {Uri : Type} {h : History}

/-- Managers share their clients soundly in every process of a run whose constructions name a
Manager as key vault, wherever they find a client. -/
theorem sharesClients_of_reaches {ser : HashArgs → Bytes} {S : Set HashArgs} {pid : ℕ}
    (hpid : pid ≠ 0) (hser : Set.InjOn ser S)
    (hh : Reaches (@History.Step Uri) (fun h e => h.world.Serializes ser S e ∧
      h.world.NamesKeyVault e) (History.start pid) h) :
    ∀ s ∈ h.world.processes, s.SharesClients h.log := by
  have hrecorded := hh.invariant (I:=History.Recorded ser S)
    (fun _ _ _ hv hok hstep => hv.step hser hok.1 hok.2 hstep) (Recorded.start hpid)
  intro s hs
  exact hrecorded.sharesClients hser hs (World.aged_of_reaches hpid (reaches_world hh) s hs)

theorem step_construct (s : Process) (E : Outside Uri) (a : ManagerArgs) (pids : List ℕ)
    (log : List Construction) : History.Step ⟨⟨[s],pids⟩,log⟩ (.act s.pid (.construct E a))
      ⟨⟨[(E.construct s a).1],pids⟩,log ++ [s.construction a]⟩ := by
  refine ⟨World.step_single s _ rfl,?_⟩
  simp [World.constructed,World.findProcess]

end History

section
variable {s : Process} {pids : List ℕ} {a : ManagerArgs} {S : Set HashArgs}

theorem serializes_plain (h : (s.construction a).prepared ∈ S) :
    World.Serializes (fun p => p.1.bytes) S ⟨[s],pids⟩
      (.act s.pid (.construct Outside.plain a)) := by
  intro t ht hash _
  obtain rfl : s = t := by simpa [World.findProcess] using ht
  exact ⟨h,rfl⟩

theorem namesKeyVault_of_named {E : Outside PlainUri} (h : (s.construction a).Named) :
    World.NamesKeyVault ⟨[s],pids⟩ (.act s.pid (.construct E a)) := by
  intro t ht _ _ _ _ _
  obtain rfl : s = t := by simpa [World.findProcess] using ht
  exact h

end

def ManagerArgs.impostor : ManagerArgs :=
  { ManagerArgs.encrypted with
    driverOptions := ManagerArgs.encrypted.driverOptions.map
      (replaceKeyVault · (.string (hashPrefix 1 ++ ascii "mongodb://vault"))) }

theorem prepared_impostor {s s' : Process} (hnone : (s'.construction .impostor).keyVault = none)
    (hhash : (s.construction .encrypted).keyVault.bind (·.clientHash) =
      some (hashPrefix 1 ++ ascii "mongodb://vault")) :
    (s'.construction .impostor).prepared = (s.construction .encrypted).prepared := by
  obtain ⟨m,hm,hmhash⟩ := Option.bind_eq_some_iff.mp hhash
  simp only [Construction.prepared,hnone,hm,Manager.hashString,hmhash]
  rfl

namespace History

/-- A Manager that is constructed twice. -/
theorem sharesClients_of_reaches_vault :
    let s := (Outside.plain.construct (Process.start 1) .vault).1
    (Outside.plain.construct s .vault).1.SharesClients
      [(Process.start 1).construction .vault,s.construction .vault] := by
  intro s
  have hser : Set.InjOn (fun p : HashArgs => p.1.bytes)
      {((Process.start 1).construction .vault).prepared} := Set.injOn_singleton _ _
  have hfirst : Reaches (@History.Step PlainUri) (fun h e => h.world.Serializes
      (fun p => p.1.bytes) {((Process.start 1).construction .vault).prepared} e ∧
      h.world.NamesKeyVault e) (History.start 1) _ := Reaches.refl.tail _
    ⟨serializes_plain (a:=.vault) (Set.mem_singleton _),
      namesKeyVault_of_named (a:=.vault) (Eq.refl false)⟩
    (step_construct (Process.start 1) Outside.plain .vault [1] [])
  have hsecond := hfirst.tail _
    ⟨serializes_plain (a:=.vault) (Set.mem_singleton _),
      namesKeyVault_of_named (a:=.vault) (Eq.refl false)⟩
    (step_construct s Outside.plain .vault [1] _)
  exact sharesClients_of_reaches (by decide) hser hsecond _ (List.mem_singleton.mpr rfl)

/-- The third Manager shares the client of the second, and has a string for a key vault. -/
theorem not_sharesClients : ∃ (ser : HashArgs → Bytes) (S : Set HashArgs) (h : History),
    Set.InjOn ser S ∧
    Reaches (@History.Step PlainUri) (fun h e => h.world.Serializes ser S e) (History.start 1) h ∧
    ¬ ∀ s ∈ h.world.processes, s.SharesClients h.log := by
  let s₀ := Process.start 1
  let s₁ := (Outside.plain.construct s₀ .vault).1
  let s₂ := (Outside.plain.construct s₁ .encrypted).1
  let s₃ := (Outside.plain.construct s₂ .impostor).1
  let S : Set HashArgs := {(s₀.construction .vault).prepared,(s₁.construction .encrypted).prepared}
  have hnone : (s₂.construction .impostor).keyVault = none :=
    Option.isNone_iff_eq_none.mp (by decide +kernel)
  have hsame := prepared_impostor (s:=s₁) hnone (by decide +kernel)
  have hfirst : Reaches (@History.Step PlainUri) (fun h e => h.world.Serializes
      (fun p => p.1.bytes) S e) (History.start 1) _ := Reaches.refl.tail _
    (serializes_plain (a:=.vault) (Or.inl rfl))
    (step_construct s₀ Outside.plain .vault [1] [])
  have hsecond := hfirst.tail _ (serializes_plain (a:=.encrypted) (Or.inr rfl))
    (step_construct s₁ Outside.plain .encrypted [1] _)
  have hthird := hsecond.tail _ (serializes_plain (a:=.impostor) (Or.inr hsame))
    (step_construct s₂ Outside.plain .impostor [1] _)
  refine ⟨_,S,_,?_,hthird,fun h => ?_⟩
  · exact Set.injOn_pair.mpr fun he => absurd he (by decide +kernel)
  have hshares := h s₃ (List.mem_singleton.mpr rfl)
  have hmanager : ∀ id ∈ [1,2], ∃ m ∈ s₃.objects, m.id = id ∧ m.createdByPid = 1 ∧
      m.usePersistentClient = true ∧ m.client = some 1 := by
    decide +kernel
  obtain ⟨m,hm,hid,hpid,hp,hclient⟩ := hmanager 1 (by decide)
  obtain ⟨m',hm',hid',hpid',-,hclient'⟩ := hmanager 2 (by decide)
  have hnumber : s₁.pid = 1 ∧ s₁.made = 1 ∧ s₂.pid = 1 ∧ s₂.made = 2 := by decide +kernel
  obtain ⟨hpid₁,hmade₁,hpid₂,hmade₂⟩ := hnumber
  have halike := (hshares.alike m hm m' hm' hp (hclient.trans hclient'.symm)
    (s₁.construction .encrypted) (by simp) (s₂.construction .impostor) (by simp)
    ⟨hpid₁.trans hpid.symm,hmade₁.trans hid.symm⟩
    ⟨hpid₂.trans hpid'.symm,hmade₂.trans hid'.symm⟩).2
  have hkeyVault := congrArg (fun p => p.2.2.2) halike
  exact absurd hkeyVault (by decide +kernel)

end History

end Phongo
