import Mathlib.Tactic.Common
import Phongo.Manager.Steps

/-! What a construction that fails leaves behind.
`php_phongo_set_handshake_data` only throws, and nobody looks: with a malformed "driver" option
`phongo_manager_init` goes on and registers the client it makes. -/
namespace Phongo
open OrderedTable Transition Attempt

section
variable {Uri : Type} (E : Outside Uri)

section Handshake

theorem extractHandshakeData_of_bad {driver : Options} {key : String} (eg : Pending)
    (h : badHandshakeValue driver key = true) :
    ∃ e, extractHandshakeData driver key eg = (none,e::eg) := by
  unfold badHandshakeValue at h
  unfold extractHandshakeData
  cases hfetch : driver.fetch key with
  | none => simp [hfetch] at h
  | some z =>
    cases z with
    | string s => simp [hfetch] at h
    | _ => exact ⟨_,rfl⟩

theorem extractHandshakeData_of_good {driver : Options} {key : String} (eg : Pending)
    (h : badHandshakeValue driver key = false) :
    ∃ value, extractHandshakeData driver key eg = (some value,eg) := by
  unfold badHandshakeValue at h
  unfold extractHandshakeData
  cases hfetch : driver.fetch key with
  | none => exact ⟨none,rfl⟩
  | some z =>
    cases z with
    | string s => exact ⟨some s,rfl⟩
    | _ => simp [hfetch] at h

theorem setHandshakeData_throws (driverOptions : Option Options) :
    (E.setHandshakeData driverOptions []).2 ≠ [] ↔ malformedHandshake driverOptions = true := by
  unfold Outside.setHandshakeData malformedHandshake
  split
  · rename_i hdriver
    simp [hdriver,pure_apply]
  · rename_i driver hdriver
    simp only [hdriver]
    cases hname : badHandshakeValue driver "name" with
    | true =>
      obtain ⟨e,he⟩ := extractHandshakeData_of_bad [] hname
      simp [bind_of_none he]
    | false =>
      obtain ⟨name,he⟩ := extractHandshakeData_of_good [] hname
      rw [bind_of_some he]
      cases hversion : badHandshakeValue driver "version" with
      | true =>
        obtain ⟨e,he⟩ := extractHandshakeData_of_bad [] hversion
        simp [bind_of_none he]
      | false =>
        obtain ⟨version,he⟩ := extractHandshakeData_of_good [] hversion
        rw [bind_of_some he]
        cases hplatform : badHandshakeValue driver "platform" with
        | true =>
          obtain ⟨e,he⟩ := extractHandshakeData_of_bad [] hplatform
          simp [bind_of_none he]
        | false =>
          obtain ⟨platform,he⟩ := extractHandshakeData_of_good [] hplatform
          simp [bind_of_some he,pure_apply]
  · rename_i z hz hdriver
    simp only [hdriver]
    cases z with
    | array ht driver => exact absurd rfl (hz ht driver)
    | _ => simp [throw_apply]

end Handshake

/-- Whatever was thrown on the way, a URI is only made with nothing pending. -/
theorem prepareUri_eq_some {a : ManagerArgs} {r : Uri × Option SslOpt} {eg : Pending}
    (h : E.prepareUri a [] = (some r,eg)) : eg = [] := by
  have hexcept : ∀ {x : Throws Uri} {uri : Uri} {eg : Pending},
      (Attempt.ofExcept x : Attempt Exception Uri) [] = (some uri,eg) → eg = [] := by
    intro x uri eg h
    cases x with
    | ok uri => exact (Prod.ext_iff.mp h).2.symm
    | error e => cases h
  obtain ⟨options,eg₁,-,h⟩ := bind_eq_some.mp h
  obtain ⟨_,eg₂,hcheck,h⟩ := bind_eq_some.mp h
  obtain rfl := (check_eq_some.mp hcheck).2
  obtain ⟨uri₁,eg₃,h₁,h⟩ := bind_eq_some.mp h
  obtain rfl := hexcept h₁
  obtain ⟨uri₂,eg₄,h₂,h⟩ := bind_eq_some.mp h
  obtain rfl := hexcept h₂
  obtain ⟨uri₃,eg₅,h₃,h⟩ := bind_eq_some.mp h
  obtain rfl := hexcept h₃
  obtain ⟨uri₄,eg₆,h₄,h⟩ := bind_eq_some.mp h
  obtain rfl := hexcept h₄
  obtain ⟨uri₅,eg₇,h₅,h⟩ := bind_eq_some.mp h
  obtain rfl := hexcept h₅
  unfold Outside.applyTls at h
  cases hssl : E.ssl with
  | some library =>
    rw [hssl] at h
    obtain ⟨uri₆,eg₈,-,h⟩ := bind_eq_some.mp h
    obtain ⟨sslOpt,eg₉,-,h⟩ := bind_eq_some.mp h
    obtain ⟨_,eg₁₀,hcheck,h⟩ := bind_eq_some.mp h
    obtain rfl := (check_eq_some.mp hcheck).2
    obtain ⟨uri₇,eg₁₁,h₇,h⟩ := bind_eq_some.mp h
    obtain rfl := hexcept h₇
    exact (Prod.ext_iff.mp h).2.symm
  | none =>
    rw [hssl] at h
    by_cases htls : E.mongocUri.getTls uri₅ = true
    · simp [htls,throw_apply] at h
    · simp only [htls,Bool.false_eq_true,if_false] at h
      exact (Prod.ext_iff.mp h).2.symm

section AutoEncryption

theorem encryptionDocument_eq_some {autoEncryption : Options} {key rejection : String}
    {accepts : Zval → Bool} {document : Option Doc} {eg eg' : Pending}
    (h : E.encryptionDocument autoEncryption key accepts rejection eg = (some document,eg')) :
    (document = none ∧ eg' = eg) ∨ (eg = [] ∧ eg' = []) := by
  unfold Outside.encryptionDocument at h
  cases hfetch : autoEncryption.fetch key with
  | none =>
    rw [hfetch] at h
    have hp := Prod.ext_iff.mp h
    exact Or.inl ⟨(Option.some.inj hp.1).symm,hp.2.symm⟩
  | some z =>
    rw [hfetch] at h
    by_cases haccepts : accepts z = true
    · simp only [haccepts,if_true] at h
      obtain ⟨doc,eg₁,hdoc,h⟩ := bind_eq_some.mp h
      obtain ⟨_,eg₂,hcheck,h⟩ := bind_eq_some.mp h
      obtain ⟨rfl,rfl⟩ := check_eq_some.mp hcheck
      exact Or.inr ⟨(keeps_toBson E z).eq_nil (by rw [hdoc]),(Prod.ext_iff.mp h).2.symm⟩
    · simp [haccepts,throw_apply] at h

/-- The KMS providers are required, and they are looked at with nothing pending. -/
theorem enableAutoEncryptionOpts_pending {uri : Uri} {keyVaultClient client : Option ℕ}
    {autoEncryption : Options} {eg eg' : Pending}
    (h : E.enableAutoEncryptionOpts uri keyVaultClient autoEncryption eg = (some client,eg')) :
    eg = [] ∧ eg' = [] := by
  have hkeeps : (E.keyVaultNamespace autoEncryption).Keeps := by
    unfold Outside.keyVaultNamespace
    split
    · exact keeps_pure _
    · exact (keeps_zvalToString E _).bind fun _ => (keeps_orThrow _ _).bind fun _ => keeps_pure _
  obtain ⟨keyVaultNamespace,eg₁,hnamespace,h⟩ := bind_eq_some.mp h
  obtain ⟨kmsProviders,eg₂,hkms,h⟩ := bind_eq_some.mp h
  obtain ⟨schemaMap,eg₃,hschema,h⟩ := bind_eq_some.mp h
  obtain ⟨extra,eg₄,hextra,h⟩ := bind_eq_some.mp h
  rcases encryptionDocument_eq_some E hkms with ⟨rfl,-⟩ | ⟨rfl,rfl⟩
  · have hrequired := E.kmsProvidersRequired uri ⟨keyVaultClient,keyVaultNamespace,none,schemaMap,
      (autoEncryption.fetch "bypassAutoEncryption").any Zval.isTrue,extra⟩ rfl
    obtain ⟨e,he⟩ := Option.isSome_iff_exists.mp hrequired
    rw [he] at h
    cases h
  · have h₃ : eg₃ = [] := by
      rcases encryptionDocument_eq_some E hschema with ⟨-,h⟩ | ⟨-,h⟩ <;> exact h
    subst h₃
    have h₄ : eg₄ = [] := by
      rcases encryptionDocument_eq_some E hextra with ⟨-,h⟩ | ⟨-,h⟩ <;> exact h
    subst h₄
    refine ⟨hkeeps.eq_nil (by rw [hnamespace]),?_⟩
    cases henable : E.enableAutoEncryption uri ⟨keyVaultClient,keyVaultNamespace,kmsProviders,
        schemaMap,(autoEncryption.fetch "bypassAutoEncryption").any Zval.isTrue,extra⟩ with
    | some e => simp [henable,throw_apply] at h
    | none =>
      rw [henable] at h
      exact (Prod.ext_iff.mp h).2.symm

theorem setAutoEncryptionOpts_of_none (s : Process) (m : Manager) (uri : Uri)
    {driverOptions : Option Options} (eg : Pending)
    (h : driverOptions.bind (·.fetch "autoEncryption") = none) :
    E.setAutoEncryptionOpts s m uri driverOptions eg = (m,some none,eg) := by
  rw [Outside.setAutoEncryptionOpts,h]

/-- With the option, automatic encryption is only enabled if nothing was and is pending. -/
theorem setAutoEncryptionOpts_pending {s : Process} {m m' : Manager} {uri : Uri}
    {driverOptions : Option Options} {client : Option ℕ} {eg eg' : Pending}
    (h : E.setAutoEncryptionOpts s m uri driverOptions eg = (m',some client,eg')) :
    (driverOptions.bind (·.fetch "autoEncryption") = none ∧ eg' = eg) ∨ eg' = [] := by
  unfold Outside.setAutoEncryptionOpts at h
  split at h
  · rename_i hnone
    cases h
    exact Or.inl ⟨hnone,rfl⟩
  · split at h
    · cases h
    · split at h
      · split at h
        · cases h
        · obtain ⟨-,h⟩ := Prod.mk.inj h
          exact Or.inr (enableAutoEncryptionOpts_pending E h).2
      · cases h

end AutoEncryption

section Finish

/-- The last two functions either throw or change nothing, whatever is pending. -/
theorem finish_apply (uri : Uri) (driverOptions : Option Options) (eg : Pending) :
    (do E.setServerapiOpts uri driverOptions; E.apmSetCallbacks uri : Attempt Exception Unit) eg =
        (some (),eg) ∧
        (E.setServerapiOpts uri driverOptions []).1 = some () ∧ E.setApmCallbacks uri = true ∨
      (∃ e, (do E.setServerapiOpts uri driverOptions; E.apmSetCallbacks uri :
          Attempt Exception Unit) eg = (none,e::eg)) ∧
        ¬ ((E.setServerapiOpts uri driverOptions []).1 = some () ∧
          E.setApmCallbacks uri = true) := by
  have hserver : (∀ eg, E.setServerapiOpts uri driverOptions eg = (some (),eg)) ∨
      ∃ e, ∀ eg, E.setServerapiOpts uri driverOptions eg = (none,e::eg) := by
    unfold Outside.setServerapiOpts
    cases driverOptions.bind (·.fetch "serverApi") with
    | none => exact Or.inl fun eg => rfl
    | some z =>
      by_cases hinstance : z.isInstanceOf serverApiClassName = true
      · cases hset : E.setServerApi uri z with
        | none => exact Or.inl fun eg => by simp [hinstance,hset,pure_apply]
        | some e => exact Or.inr ⟨e,fun eg => by simp [hinstance,hset,throw_apply]⟩
      · simp only [hinstance,Bool.false_eq_true,not_false_eq_true,if_true]
        exact Or.inr ⟨_,fun eg => rfl⟩
  rcases hserver with hserver | ⟨e,hserver⟩
  · rw [bind_of_some (hserver eg),hserver,Outside.apmSetCallbacks]
    by_cases hapm : E.setApmCallbacks uri = true
    · simp [hapm,pure_apply]
    · simp [hapm,throw_apply]
  · rw [bind_of_none (hserver eg),hserver]
    simp

end Finish

/-- A construction whose handshake data is malformed and that nothing else stops. -/
structure LeavesClient (s : Process) (a : ManagerArgs) : Prop where
  malformed : malformedHandshake a.driverOptions = true
  noAutoEncryption : a.driverOptions.bind (·.fetch "autoEncryption") = none
  reaches : ∃ hash uri sslOpt, E.makeClientHash s a [] = (some hash,[]) ∧
    (usePersistentClient a.driverOptions = true → s.findPersistentClient hash = none) ∧
    E.prepareUri a [] = (some (uri,sslOpt),[]) ∧ E.clientNewFromUri uri = true ∧
    (E.setServerapiOpts uri a.driverOptions []).1 = some () ∧ E.setApmCallbacks uri = true

def Process.SameRegistries (s s' : Process) : Prop :=
  s'.persistentClients = s.persistentClients ∧ s'.requestClients = s.requestClients

theorem not_sameRegistries_clientRegister {s s' : Process} {m : Manager} {client : ℕ}
    (hash : Bytes) (hsame : s.SameRegistries s') (hhash : m.clientHash = some hash)
    (hnone : m.usePersistentClient = true → s.findPersistentClient hash = none) :
    ¬ s.SameRegistries (s'.clientRegister m client) := by
  intro h
  unfold Process.clientRegister at h
  by_cases hp : m.usePersistentClient = true
  · have hfind : find? s'.persistentClients hash = none := by
      have hf := hnone hp
      rw [Process.findPersistentClient,Option.map_eq_none_iff] at hf
      rw [hsame.1,hf]
    have hlen := congrArg List.length h.1
    simp only [hp,if_true,hhash,Option.getD_some] at hlen
    rw [update_of_notMem _ _ _ ((find?_eq_none _ _).mp hfind),hsame.1] at hlen
    simp at hlen
  · have hlen := congrArg List.length h.2
    simp only [hp,Bool.false_eq_true,if_false,hsame.2] at hlen
    simp at hlen

theorem LeavesClient.managerInit {s : Process} {m : Manager} {a : ManagerArgs}
    (h : LeavesClient E s a) :
    (E.managerInit s m a).exceptions ≠ [] ∧
      ¬ s.SameRegistries (E.managerInit s m a).process := by
  obtain ⟨hash,uri,sslOpt,hhash,hnone,hprepare,hnew,hserver,hapm⟩ := h.reaches
  have hfind : (if usePersistentClient a.driverOptions then s.findPersistentClient hash
      else none) = none := by
    split
    · rename_i hp
      exact hnone hp
    · rfl
  have hthrown := (setHandshakeData_throws E a.driverOptions).mpr h.malformed
  simp only [Outside.managerInit,hhash,hfind,hprepare,Outside.makeMongoClient,hnew,if_true,
    Outside.finishClient,setAutoEncryptionOpts_of_none E _ _ uri _ h.noAutoEncryption]
  rcases finish_apply E uri a.driverOptions (E.setHandshakeData a.driverOptions []).2 with
    ⟨hfinish,-⟩ | ⟨-,hnot⟩
  · rw [hfinish]
    exact ⟨hthrown,not_sameRegistries_clientRegister hash ⟨rfl,rfl⟩ rfl hnone⟩
  · exact absurd ⟨hserver,hapm⟩ hnot

theorem leavesClient_of_managerInit {s : Process} {m : Manager} {a : ManagerArgs}
    (hne : (E.managerInit s m a).exceptions ≠ [])
    (hchanged : ¬ s.SameRegistries (E.managerInit s m a).process) : LeavesClient E s a := by
  unfold Outside.managerInit at hne hchanged
  rcases hhash : E.makeClientHash s a [] with ⟨_ | hash,eg⟩
  · rw [hhash] at hchanged
    exact absurd ⟨rfl,rfl⟩ hchanged
  obtain rfl := (makeClientHash_eq_some E hhash).1
  rw [hhash] at hne hchanged
  dsimp only at hne hchanged
  cases hfind : (if usePersistentClient a.driverOptions then s.findPersistentClient hash
      else none) with
  | some client =>
    rw [hfind] at hchanged
    exact absurd ⟨rfl,rfl⟩ hchanged
  | none =>
    rw [hfind] at hne hchanged
    rcases hprepare : E.prepareUri a [] with ⟨_ | ⟨uri,sslOpt⟩,eg⟩
    · rw [hprepare] at hchanged
      exact absurd ⟨rfl,rfl⟩ hchanged
    obtain rfl := prepareUri_eq_some E hprepare
    rw [hprepare] at hne hchanged
    dsimp only at hne hchanged
    by_cases hnew : E.clientNewFromUri uri = true
    · simp only [Outside.makeMongoClient,hnew,if_true,Outside.finishClient] at hne hchanged
      split at hne
      · rename_i hauto
        rw [hauto] at hchanged
        exact absurd ⟨rfl,rfl⟩ hchanged
      · rename_i m' keyVaultClient eg' hauto
        rw [hauto] at hchanged
        dsimp only at hne hchanged
        rcases finish_apply E uri a.driverOptions eg' with ⟨hfinish,hserver,hapm⟩ | ⟨⟨e,hfinish⟩,-⟩
        · rw [hfinish] at hne
          rcases setAutoEncryptionOpts_pending E hauto with ⟨hno,rfl⟩ | rfl
          · exact ⟨(setHandshakeData_throws E a.driverOptions).mp hne,hno,hash,uri,sslOpt,hhash,
              fun hp => by simpa [hp] using hfind,hprepare,hnew,hserver,hapm⟩
          · exact absurd rfl hne
        · rw [hfinish] at hchanged
          exact absurd ⟨rfl,rfl⟩ hchanged
    · simp only [Outside.makeMongoClient,hnew] at hchanged
      exact absurd ⟨rfl,rfl⟩ hchanged

section Again
variable {s s' : Process} {m m' : Manager}

theorem managerOf_congr (hobjects : s.objects = s'.objects) : s.managerOf = s'.managerOf := by
  funext z
  unfold Process.managerOf
  rw [hobjects]

theorem makeClientHash_congr (hpid : s.pid = s'.pid) (hobjects : s.objects = s'.objects) :
    E.makeClientHash s = E.makeClientHash s' := by
  funext a
  have hprepare : s.prepareManagerForHash = s'.prepareManagerForHash := by
    funext driverOptions
    unfold Process.prepareManagerForHash
    rw [managerOf_congr hobjects]
  unfold Outside.makeClientHash
  rw [hprepare,hpid]

theorem setAutoEncryptionOpts_congr (uri : Uri) (driverOptions : Option Options) (eg : Pending)
    (hobjects : s.objects = s'.objects) (hm : m.usePersistentClient = m'.usePersistentClient) :
    (E.setAutoEncryptionOpts s m uri driverOptions eg).2 =
      (E.setAutoEncryptionOpts s' m' uri driverOptions eg).2 := by
  have hkey : keyVaultManager s m = keyVaultManager s' m' := by
    funext autoEncryption
    unfold keyVaultManager
    rw [managerOf_congr hobjects,hm]
  unfold Outside.setAutoEncryptionOpts
  rw [hkey]
  split
  · rfl
  · split
    · rfl
    · split
      · split <;> rfl
      · rfl

theorem exceptions_finishClient_congr (client client' : ℕ) (uri : Uri)
    (driverOptions : Option Options) (eg : Pending) (hobjects : s.objects = s'.objects)
    (hm : m.usePersistentClient = m'.usePersistentClient) :
    (E.finishClient s m client uri driverOptions eg).exceptions =
      (E.finishClient s' m' client' uri driverOptions eg).exceptions := by
  have hauto := setAutoEncryptionOpts_congr E uri driverOptions eg hobjects hm
  unfold Outside.finishClient
  rcases h : E.setAutoEncryptionOpts s m uri driverOptions eg with ⟨m₁,keyVault,eg₁⟩
  rcases h' : E.setAutoEncryptionOpts s' m' uri driverOptions eg with ⟨m₂,keyVault',eg₂⟩
  rw [h,h'] at hauto
  cases hauto
  cases keyVault with
  | none => rfl
  | some keyVault =>
    dsimp only
    rcases (do E.setServerapiOpts uri driverOptions; E.apmSetCallbacks uri :
      Attempt Exception Unit) eg₁ with ⟨_ | _,eg₂⟩ <;> rfl

/-- What is thrown depends on the pid, the Managers and the persistent clients only. -/
theorem exceptions_managerInit_congr (m m' : Manager) (a : ManagerArgs) (hpid : s.pid = s'.pid)
    (hobjects : s.objects = s'.objects) (hclients : s.persistentClients = s'.persistentClients) :
    (E.managerInit s m a).exceptions = (E.managerInit s' m' a).exceptions := by
  have hfind : s.findPersistentClient = s'.findPersistentClient := by
    funext hash
    unfold Process.findPersistentClient
    rw [hclients]
  unfold Outside.managerInit
  rw [makeClientHash_congr E hpid hobjects,hfind]
  rcases E.makeClientHash s' a [] with ⟨_ | hash,eg⟩
  · rfl
  dsimp only
  cases (if usePersistentClient a.driverOptions then s'.findPersistentClient hash else none) with
  | some client => rfl
  | none =>
    rcases E.prepareUri a eg with ⟨_ | ⟨uri,sslOpt⟩,eg⟩
    · rfl
    unfold Outside.makeMongoClient
    by_cases hnew : E.clientNewFromUri uri = true
    · simp only [hnew,if_true]
      exact exceptions_finishClient_congr E _ _ uri a.driverOptions _ hobjects rfl
    · simp only [hnew]
      rfl

theorem construct_snd (a : ManagerArgs)
    (hne : (E.managerInit s.createManager.2 s.createManager.1 a).exceptions ≠ []) :
    (E.construct s a).2 ≠ [] := by
  unfold Outside.construct
  generalize E.managerInit s.createManager.2 s.createManager.1 a = r at hne
  cases r
  rw [Process.register_of_ne hne]
  exact hne

end Again

/-- A construction that throws has left the registries alone, and throws once more. -/
def LeavesNothing (s : Process) (a : ManagerArgs) : Prop :=
  (E.managerInit s.createManager.2 s.createManager.1 a).exceptions ≠ [] →
    s.SameRegistries (E.managerInit s.createManager.2 s.createManager.1 a).process ∧
      (E.construct (E.construct s a).1 a).2 ≠ []

theorem Process.Sound.leavesNothing_iff {s : Process} {pids : List ℕ} (h : s.Sound pids)
    (a : ManagerArgs) : LeavesNothing E s a ↔ ¬ LeavesClient E s a := by
  constructor
  · intro hnothing hleaves
    have hleaves' : LeavesClient E s.createManager.2 a := ⟨hleaves.1,hleaves.2,hleaves.3⟩
    obtain ⟨hne,hchanged⟩ := hleaves'.managerInit E (m:=s.createManager.1)
    exact hchanged (hnothing hne).1
  · intro hnot hne
    have hsame : s.SameRegistries
        (E.managerInit s.createManager.2 s.createManager.1 a).process := by
      by_contra hchanged
      have hleaves := leavesClient_of_managerInit E hne hchanged
      exact hnot ⟨hleaves.1,hleaves.2,hleaves.3⟩
    refine ⟨hsame,construct_snd E a ?_⟩
    have hleaves := managerInit_leaves E s.createManager.2 (m:=s.createManager.1) a rfl rfl
    have hsecond : (E.construct s a).1.pid = s.pid ∧ (E.construct s a).1.objects = s.objects ∧
        (E.construct s a).1.persistentClients = s.persistentClients := by
      unfold Outside.construct
      generalize E.managerInit s.createManager.2 s.createManager.1 a = r at hleaves hne hsame
      cases hleaves with
      | failed records handshakes m' eg hrecords hid hclient hthrown =>
        have hfree := h.freeManager_failed records handshakes hid hclient
        rw [Process.extend] at hfree
        rw [Process.register_of_ne hthrown,hfree]
        exact ⟨rfl,rfl,rfl⟩
      | found hash client hhash hpersistent hfind => exact absurd rfl hne
      | registered hash keyVault handshakes eg hhash hnone hkeyVault m' hm =>
        refine absurd hsame (not_sameRegistries_clientRegister hash ⟨rfl,rfl⟩ ?_ ?_)
        · rw [hm]
          rfl
        · rw [hm]
          exact hnone
    obtain ⟨hpid,hobjects,hclients⟩ := hsecond
    refine fun hnil => hne (Eq.trans ?_ hnil)
    exact exceptions_managerInit_congr E _ _ a hpid.symm hobjects.symm hclients.symm

end

variable {Uri : Type} {w : World} {s : Process}

/-- After any history of processes that fork and construct Managers. -/
theorem failedConstruction_leavesNothing_iff {pid : ℕ} (hpid : pid ≠ 0)
    (hw : Reaches (@World.Step Uri) always (World.start pid) w) (hs : s ∈ w.processes)
    (E : Outside Uri) (a : ManagerArgs) : LeavesNothing E s a ↔ ¬ LeavesClient E s a :=
  ((World.sound_of_reaches hpid hw).processes s hs).leavesNothing_iff E a

/-- `new Manager('mongodb://127.0.0.1', [], ['driver' => 1])` -/
def ManagerArgs.malformedDriver : ManagerArgs :=
  ⟨CString.lit "mongodb://127.0.0.1",none,some [(.str (ascii "driver"),.long 1)]⟩

/-- `new Manager('mongodb://127.0.0.1', [], ['autoEncryption' => 1])` -/
def ManagerArgs.malformedEncryption : ManagerArgs :=
  ⟨CString.lit "mongodb://127.0.0.1",none,some [(.str (ascii "autoEncryption"),.long 1)]⟩

/-- In a process with two Managers the construction throws, makes a client and registers none. -/
theorem failedConstruction_leavesNothing_encrypted :
    (Outside.plain.managerInit Process.encrypted.createManager.2
      Process.encrypted.createManager.1 .malformedEncryption).exceptions ≠ [] ∧
    LeavesNothing Outside.plain Process.encrypted .malformedEncryption := by
  refine ⟨by decide +kernel,?_⟩
  refine (failedConstruction_leavesNothing_iff (by decide)
    ((Reaches.refl.tail _ trivial World.step_vault).tail _ trivial World.step_encrypted)
    (List.mem_singleton.mpr rfl) Outside.plain _).mpr fun hleaves => ?_
  exact absurd hleaves.noAutoEncryption (by decide +kernel)

/-- The second attempt finds the client of the first, and succeeds. -/
theorem failedConstruction_leavesClient :
    ¬ LeavesNothing Outside.plain (Process.start 1) ManagerArgs.malformedDriver ∧
      (Outside.plain.construct (Process.start 1) ManagerArgs.malformedDriver).2 ≠ [] ∧
      (Outside.plain.construct (Outside.plain.construct (Process.start 1)
        ManagerArgs.malformedDriver).1 ManagerArgs.malformedDriver).2 = [] := by
  have hfirst : (Outside.plain.managerInit (Process.start 1).createManager.2
      (Process.start 1).createManager.1 ManagerArgs.malformedDriver).exceptions ≠ [] := by
    decide
  have hsecond : (Outside.plain.construct (Outside.plain.construct (Process.start 1)
      ManagerArgs.malformedDriver).1 ManagerArgs.malformedDriver).2 = [] := by
    decide
  exact ⟨fun h => (h hfirst).2 hsecond,construct_snd _ _ hfirst,hsecond⟩

end Phongo
