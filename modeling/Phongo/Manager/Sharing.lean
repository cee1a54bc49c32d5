import Mathlib.Data.Set.Function
import Mathlib.Tactic.Common
import Phongo.Manager.Ages
import Phongo.Manager.Hash

/-! Which Managers share a persistent client: those that one process constructed with the same
arguments, as long as no client hash is passed in place of a key vault Manager. -/
namespace Phongo
open OrderedTable Transition

abbrev HashArgs := CString × Option Options × Option Options

def Process.construction (s : Process) (a : ManagerArgs) : Construction :=
  ⟨s.pid,s.made,a,s.keyVaultOf a.driverOptions⟩

/-- What `php_var_serialize` writes for a construction. -/
def Outside.serialized {Uri : Type} (E : Outside Uri) (c : Construction) : Bytes :=
  (E.varSerialize c.prepared.1 c.prepared.2.1 c.prepared.2.2).1

structure Construction.Makes (c : Construction) (m : Manager) : Prop where
  pid : c.pid = m.createdByPid
  id : c.id = m.id

section
variable (ser : HashArgs → Bytes) (S : Set HashArgs)

structure Construction.Hashes (c : Construction) (m : Manager) : Prop extends c.Makes m where
  hash : m.clientHash = some (hashPrefix c.pid ++ ser c.prepared)
  mem : c.prepared ∈ S
  persistent : m.usePersistentClient = usePersistentClient c.args.driverOptions

/-- The key vault Manager was given as one, and the process still finds its client. -/
structure Process.Finds (s : Process) (c : Construction) : Prop where
  named : c.Named
  keyVault : ∀ m, c.keyVault = some m → m.usePersistentClient = true ∧
    ∃ hash client, m.clientHash = some hash ∧ m.client = some client ∧
      s.findPersistentClient hash = some client

/-- Managers and persistent clients go back to constructions. -/
structure Process.Recorded (cs : List Construction) (s : Process) : Prop where
  objects : ∀ m ∈ s.objects, ∃ c ∈ cs, c.Hashes ser S m ∧
    (m.usePersistentClient = true → s.Finds c)
  entries : ∀ hash client, s.findPersistentClient hash = some client →
    ∃ c ∈ cs, hash = hashPrefix c.pid ++ ser c.prepared ∧ c.prepared ∈ S ∧ s.Finds c

def KeyVaultsRecorded (cs : List Construction) : Prop :=
  ∀ c ∈ cs, ∀ m, c.keyVault = some m → ∃ c' ∈ cs, c'.Hashes ser S m

end

section
variable {ser : HashArgs → Bytes} {S : Set HashArgs} {s s' : Process} {cs : List Construction}
  {pids : List ℕ} {m m' : Manager} {c c' : Construction}

theorem prepared_eq (hser : Set.InjOn ser S) (hc : c.prepared ∈ S) (hc' : c'.prepared ∈ S)
    (h : hashPrefix c.pid ++ ser c.prepared = hashPrefix c'.pid ++ ser c'.prepared) :
    c.pid = c'.pid ∧ c.prepared = c'.prepared := by
  have hpid := hashPrefix_injective h
  rw [hpid] at h
  exact ⟨hpid,hser hc hc' (List.append_cancel_left h)⟩

theorem Process.Finds.mono (h : s.Finds c)
    (hfind : ∀ hash client, s.findPersistentClient hash = some client →
      s'.findPersistentClient hash = some client) : s'.Finds c :=
  ⟨h.named,fun m hm => by
    obtain ⟨hpersistent,hash,client,hhash,hclient,hfound⟩ := h.keyVault m hm
    exact ⟨hpersistent,hash,client,hhash,hclient,hfind hash client hfound⟩⟩

/-- The registry leads from a persistent Manager's hash to its client. -/
theorem Process.Sound.findPersistentClient (h : s.Sound pids) (hm : m ∈ s.objects)
    (hpersistent : m.usePersistentClient = true) : ∃ hash client, m.clientHash = some hash ∧
      m.client = some client ∧ s.findPersistentClient hash = some client := by
  obtain ⟨client,record,hown⟩ := h.owns m hm
  have hreg := hown.registered
  rw [Process.Registered,if_pos hpersistent] at hreg
  obtain ⟨hash,p,hhash,hfind,hc⟩ := hreg
  exact ⟨hash,client,hhash,hown.client_eq,by simp [Process.findPersistentClient,hfind,hc]⟩

theorem Process.Sound.hash_eq (h : s.Sound pids) {hash hash' : Bytes} {client : ℕ}
    (hfind : s.findPersistentClient hash = some client)
    (hfind' : s.findPersistentClient hash' = some client) : hash = hash' := by
  obtain ⟨p,hp,hc⟩ := Option.map_eq_some_iff.mp hfind
  obtain ⟨p',hp',hc'⟩ := Option.map_eq_some_iff.mp hfind'
  have hnodup := h.clientsNodup
  rw [Process.pclients,List.map_append,List.map_map] at hnodup
  have hentry := List.inj_on_of_nodup_map (List.nodup_append.mp hnodup).1
    (mem_of_find?_eq_some _ _ _ hp) (mem_of_find?_eq_some _ _ _ hp') (hc.trans hc'.symm)
  exact (Prod.mk.inj hentry).1

theorem Process.Recorded.compared_eq (h : s.Recorded ser S cs) (hs : s.Sound pids)
    (hser : Set.InjOn ser S) (hm : m ∈ s.objects) (hm' : m' ∈ s.objects)
    (hp : m.usePersistentClient = true) (hp' : m'.usePersistentClient = true)
    (hclient : m.client = m'.client) : ∃ c ∈ cs, ∃ c' ∈ cs, c.Makes m ∧ c'.Makes m' ∧
      c.pid = c'.pid ∧ c.compared = c'.compared := by
  obtain ⟨c,hc,hhashes,hfinds⟩ := h.objects m hm
  obtain ⟨c',hc',hhashes',hfinds'⟩ := h.objects m' hm'
  obtain ⟨hash,client,hhash,hmc,hfind⟩ := hs.findPersistentClient hm hp
  obtain ⟨hash',client',hhash',hmc',hfind'⟩ := hs.findPersistentClient hm' hp'
  obtain rfl := Option.some.inj (hmc.symm.trans (hclient.trans hmc'))
  obtain rfl := hs.hash_eq hfind hfind'
  have hsame := Option.some.inj (hhashes.hash.symm.trans (hhash.trans
    (hhash'.symm.trans hhashes'.hash)))
  obtain ⟨hpid,hprepared⟩ := prepared_eq hser hhashes.mem hhashes'.mem hsame
  refine ⟨c,hc,c',hc',hhashes.toMakes,hhashes'.toMakes,hpid,?_⟩
  refine Construction.compared_eq (hfinds hp).named (hfinds' hp').named hprepared ?_
  intro k k' hk hk' hstring
  obtain ⟨-,h₁,client₁,hh₁,hc₁,hf₁⟩ := (hfinds hp).keyVault k hk
  obtain ⟨-,h₂,client₂,hh₂,hc₂,hf₂⟩ := (hfinds' hp').keyVault k' hk'
  simp only [Manager.hashString,hh₁,hh₂,Option.getD_some,Zval.string.injEq] at hstring
  rw [hstring,hf₂,Option.some.injEq] at hf₁
  rw [hc₁,hc₂,hf₁]

section Construct
variable {Uri : Type} {E : Outside Uri} {a : ManagerArgs}

open Process

theorem makeClientHash_prepared {hash : Bytes}
    (h : E.makeClientHash s a [] = (some hash,[]))
    (hser : E.serialized (s.construction a) = ser (s.construction a).prepared) :
    hash = hashPrefix s.pid ++ ser (s.construction a).prepared := by
  have hprepared : a.driverOptions.map s.prepareManagerForHash =
      (s.construction a).prepared.2.2 := by
    unfold Construction.prepared Process.construction
    cases a.driverOptions with
    | none => rfl
    | some driverOptions => exact congrArg some (prepareManagerForHash_eq s driverOptions)
  obtain ⟨serialized,eg₁,hserialized,h⟩ := Attempt.bind_eq_some.mp h
  obtain ⟨_,eg₂,hcheck,h⟩ := Attempt.bind_eq_some.mp h
  have hhash := (Prod.mk.inj h).1
  rw [hprepared] at hserialized
  have hs := (Prod.mk.inj hserialized).1
  rw [← Option.some.inj hhash,← hser,← Option.some.inj hs]
  rfl

theorem Process.NamesKeyVault.cases {persistent : Bool} {driverOptions : Option Options}
    {keyVault : Option Manager} (h : s.NamesKeyVault persistent driverOptions keyVault) :
    driverOptions.bind keyVaultOption = none ∨ ∃ z k, driverOptions.bind keyVaultOption = some z ∧
      s.managerOf z = some k ∧ k.usePersistentClient = persistent := by
  cases driverOptions with
  | none => exact Or.inl rfl
  | some driverOptions =>
    unfold Process.NamesKeyVault at h
    simp only [Option.bind_some] at h ⊢
    unfold keyVaultOption
    cases hfetch : driverOptions.fetch "autoEncryption" with
    | none => exact Or.inl rfl
    | some y =>
      rw [hfetch] at h
      cases y with
      | array ht autoEncryption =>
        dsimp only at h ⊢
        cases hz : Options.fetch autoEncryption "keyVaultClient" with
        | none => exact Or.inl rfl
        | some z =>
          rw [hz] at h
          obtain ⟨k,-,hof,hpersistent⟩ := h
          exact Or.inr ⟨z,k,rfl,hof,hpersistent⟩
      | _ => exact h.elim

/-- A construction that makes a persistent client has checked its key vault Manager. -/
theorem Process.NamesKeyVault.finds (h : s.Sound pids) {keyVault : Option Manager}
    (hnames : s.NamesKeyVault true a.driverOptions keyVault) : s.Finds (s.construction a) := by
  rcases hnames.cases with hnone | ⟨z,k,hz,hof,hpersistent⟩
  · refine ⟨?_,fun m hm => ?_⟩
    · simp [Construction.Named,Process.construction,Process.keyVaultOf,hnone]
    · simp [Process.construction,Process.keyVaultOf,hnone] at hm
  · refine ⟨?_,fun m hm => ?_⟩
    · simp [Construction.Named,Process.construction,Process.keyVaultOf,hz,hof]
    · simp only [Process.construction,Process.keyVaultOf,hz,Option.bind_some,hof,
        Option.some.injEq] at hm
      exact hm ▸ ⟨hpersistent,h.findPersistentClient (managerOf_mem hof) hpersistent⟩

/-- A construction that finds its client has named its key vault Manager as the one before did. -/
theorem Process.Recorded.finds_found (h : s.Recorded ser S cs) (hs : s.Sound pids)
    (hkeyVaults : KeyVaultsRecorded ser S cs) (hser : Set.InjOn ser S) {hash : Bytes}
    {client : ℕ} (hmem : (s.construction a).prepared ∈ S)
    (hhash : hash = hashPrefix s.pid ++ ser (s.construction a).prepared)
    (hfind : s.findPersistentClient hash = some client) (hnamed : (s.construction a).Named) :
    s.Finds (s.construction a) := by
  refine ⟨hnamed,fun m hm => ?_⟩
  have hmo : m ∈ s.objects := by
    obtain ⟨z,-,hof⟩ := Option.bind_eq_some_iff.mp hm
    exact managerOf_mem hof
  obtain ⟨c,hc,hchash,hcmem,hcfinds⟩ := h.entries hash client hfind
  obtain ⟨-,hprepared⟩ := prepared_eq (c:=s.construction a) hser hmem hcmem
    (hhash.symm.trans hchash)
  have hstrings := Construction.keyVaultOption_prepared hnamed
  rw [hprepared,Construction.keyVaultOption_prepared hcfinds.named,hm] at hstrings
  -- the Manager that was named before, with the same hash
  obtain ⟨k,hk,hstring⟩ := Option.map_eq_some_iff.mp hstrings
  obtain ⟨ck,hck,hckhash⟩ := hkeyVaults c hc k hk
  obtain ⟨cm,hcm,hcmhash,-⟩ := h.objects m hmo
  have hsame : hashPrefix ck.pid ++ ser ck.prepared = hashPrefix cm.pid ++ ser cm.prepared := by
    simpa [Manager.hashString,hckhash.hash,hcmhash.hash] using hstring
  obtain ⟨-,hargs⟩ := prepared_eq hser hckhash.mem hcmhash.mem hsame
  have hpersistent : m.usePersistentClient = true := by
    rw [hcmhash.persistent,← Construction.usePersistentClient_prepared,← hargs,
      Construction.usePersistentClient_prepared,← hckhash.persistent]
    exact (hcfinds.keyVault k hk).1
  exact ⟨hpersistent,hs.findPersistentClient hmo hpersistent⟩

theorem findPersistentClient_withRegistered (s : Process) (handshakes : List HandshakeData)
    {hash : Bytes} (hhash : m.clientHash = some hash) (hash' : Bytes) :
    (s.withRegistered handshakes m).findPersistentClient hash' =
      if m.usePersistentClient = true ∧ hash' = hash then some s.clients.length
      else s.findPersistentClient hash' := by
  unfold Process.withRegistered Process.clientRegister Process.findPersistentClient
  dsimp only
  by_cases hp : m.usePersistentClient = true
  · rw [if_pos hp,hhash,Option.getD_some]
    by_cases he : hash' = hash
    · simp [hp,he]
    · rw [find?_update_of_ne _ _ _ _ he]
      simp [he]
  · simp [hp]

theorem findPersistentClient_construct (hs : s.Sound pids) (E : Outside Uri) (a : ManagerArgs) :
    (E.construct s a).1.findPersistentClient = s.findPersistentClient ∨
      ∃ hash keyVault, E.makeClientHash s a [] = (some hash,[]) ∧
        s.findPersistentClient hash = none ∧ s.NamesKeyVault true a.driverOptions keyVault ∧
        ∀ hash', (E.construct s a).1.findPersistentClient hash' =
          if hash' = hash then some s.clients.length else s.findPersistentClient hash' := by
  have hconstructs := construct_constructs E hs a
  generalize E.construct s a = r at hconstructs
  cases hconstructs with
  | failed records handshakes calls eg hrecords hcalls hne => exact Or.inl rfl
  | left hash keyVault handshakes eg hhash hpersistent hnone hkeyVault hne =>
    refine Or.inr ⟨hash,keyVault,hhash,hnone,hkeyVault,fun hash' => ?_⟩
    rw [findPersistentClient_withRegistered _ handshakes rfl]
    simp [Manager.withClient,Process.createManager,Process.findPersistentClient]
  | found hash client hhash hpersistent hfind m hm => exact Or.inl rfl
  | registered hash keyVault handshakes hhash hnone hkeyVault m hm =>
    have hm' : m.clientHash = some hash := by rw [hm]; rfl
    have hpersistent : m.usePersistentClient = usePersistentClient a.driverOptions := by
      rw [hm]
      rfl
    have hfind := findPersistentClient_withRegistered s.createManager.2 handshakes hm'
    by_cases hp : usePersistentClient a.driverOptions = true
    · refine Or.inr ⟨hash,keyVault,hhash,hnone hp,hp ▸ hkeyVault,fun hash' => (hfind hash').trans ?_⟩
      simp [hpersistent,hp,Process.createManager,Process.findPersistentClient]
    · refine Or.inl (funext fun hash' => (hfind hash').trans ?_)
      simp [hpersistent,hp,Process.createManager,Process.findPersistentClient]

theorem findPersistentClient_mono (hs : s.Sound pids) (E : Outside Uri) (a : ManagerArgs) :
    ∀ hash client, s.findPersistentClient hash = some client →
      (E.construct s a).1.findPersistentClient hash = some client := by
  intro hash client hfind
  rcases findPersistentClient_construct hs E a with h | ⟨hash',keyVault,-,hnone,-,h⟩
  · rw [h]
    exact hfind
  · rw [h,if_neg (fun he => by rw [he,hnone] at hfind; cases hfind)]
    exact hfind

theorem Process.Recorded.construct (h : s.Recorded ser S cs) (hs : s.Sound pids)
    (hkeyVaults : KeyVaultsRecorded ser S cs) (hser : Set.InjOn ser S)
    (hE : ∀ hash, E.makeClientHash s a [] = (some hash,[]) → (s.construction a).prepared ∈ S ∧
      E.serialized (s.construction a) = ser (s.construction a).prepared)
    (hnames : ∀ hash client, usePersistentClient a.driverOptions = true →
      E.makeClientHash s a [] = (some hash,[]) → s.findPersistentClient hash = some client →
      (s.construction a).Named) :
    (E.construct s a).1.Recorded ser S (cs ++ [s.construction a]) := by
  have hmono := findPersistentClient_mono hs E a
  have hregistry := findPersistentClient_construct hs E a
  have hself : s.construction a ∈ cs ++ [s.construction a] :=
    List.mem_append_right _ (List.mem_singleton.mpr rfl)
  have hold : ∀ m ∈ s.objects, ∃ c ∈ cs ++ [s.construction a], c.Hashes ser S m ∧
      (m.usePersistentClient = true → (E.construct s a).1.Finds c) := fun m hm => by
    obtain ⟨c,hc,hhashes,hfinds⟩ := h.objects m hm
    exact ⟨c,List.mem_append_left _ hc,hhashes,fun hp => (hfinds hp).mono hmono⟩
  have hnew : ∀ hash m, E.makeClientHash s a [] = (some hash,[]) → m.id = s.made →
      m.createdByPid = s.pid → m.clientHash = some hash →
      m.usePersistentClient = usePersistentClient a.driverOptions →
      (usePersistentClient a.driverOptions = true → s.Finds (s.construction a)) →
      ∃ c ∈ cs ++ [s.construction a], c.Hashes ser S m ∧
        (m.usePersistentClient = true → (E.construct s a).1.Finds c) := by
    intro hash m hhash hid hpid hm hpersistent hfinds
    refine ⟨s.construction a,hself,⟨⟨hpid.symm,hid.symm⟩,?_,(hE hash hhash).1,hpersistent⟩,fun hp => ?_⟩
    · rw [hm,makeClientHash_prepared hhash (hE hash hhash).2]
      rfl
    · exact (hfinds (hpersistent ▸ hp)).mono hmono
  refine ⟨?_,?_⟩
  · have hconstructs := construct_constructs E hs a
    generalize E.construct s a = r at hconstructs hold hnew
    cases hconstructs with
    | failed records handshakes calls eg hrecords hcalls hne => exact hold
    | left hash keyVault handshakes eg hhash hpersistent hnone hkeyVault hne =>
      rw [Process.objects_withRegistered]
      exact hold
    | found hash client hhash hpersistent hfind m hm =>
      intro m' hm'
      rcases List.mem_append.mp hm' with hm' | hm'
      · exact hold m' hm'
      · have hfinds := h.finds_found hs hkeyVaults hser (hE hash hhash).1
          (makeClientHash_prepared hhash (hE hash hhash).2) hfind
          (hnames hash client hpersistent hhash hfind)
        rw [List.mem_singleton.mp hm']
        refine hnew hash m hhash ?_ ?_ ?_ ?_ fun _ => hfinds
        all_goals simp [hm,Manager.withClient,createManager,hpersistent]
    | registered hash keyVault handshakes hhash hnone hkeyVault m hm =>
      intro m' hm'
      rcases List.mem_append.mp hm' with hm' | hm'
      · exact hold m' hm'
      · rw [List.mem_singleton.mp hm']
        refine hnew hash m hhash ?_ ?_ ?_ ?_ fun hp => (hp ▸ hkeyVault).finds hs
        all_goals simp [hm,Manager.withClient,createManager]
  · intro hash client hfind
    rcases hregistry with heq | ⟨hash',keyVault,hhash,hnone,hkeyVault,heq⟩
    · rw [heq] at hfind
      obtain ⟨c,hc,hchash,hcmem,hcfinds⟩ := h.entries hash client hfind
      exact ⟨c,List.mem_append_left _ hc,hchash,hcmem,hcfinds.mono hmono⟩
    · by_cases he : hash = hash'
      · exact ⟨s.construction a,hself,he ▸ makeClientHash_prepared hhash (hE hash' hhash).2,
          (hE hash' hhash).1,(hkeyVault.finds hs).mono hmono⟩
      · rw [heq,if_neg he] at hfind
        obtain ⟨c,hc,hchash,hcmem,hcfinds⟩ := h.entries hash client hfind
        exact ⟨c,List.mem_append_left _ hc,hchash,hcmem,hcfinds.mono hmono⟩

theorem KeyVaultsRecorded.construct (hkeyVaults : KeyVaultsRecorded ser S cs)
    (h : s.Recorded ser S cs) (a : ManagerArgs) :
    KeyVaultsRecorded ser S (cs ++ [s.construction a]) := by
  intro c hc m hm
  rcases List.mem_append.mp hc with hc | hc
  · obtain ⟨c',hc',hhashes⟩ := hkeyVaults c hc m hm
    exact ⟨c',List.mem_append_left _ hc',hhashes⟩
  · obtain rfl := List.mem_singleton.mp hc
    obtain ⟨z,-,hof⟩ := Option.bind_eq_some_iff.mp hm
    obtain ⟨c',hc',hhashes,-⟩ := h.objects m (managerOf_mem hof)
    exact ⟨c',List.mem_append_left _ hc',hhashes⟩

end Construct

end

end Phongo
