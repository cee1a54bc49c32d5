import Mathlib.Tactic.Common
import Phongo.Bson.Pending
import Phongo.Manager.Construct

/-! How `phongo_manager_init` ends: every function that fails has thrown, and there are three
ways to leave. -/
namespace Phongo
open OrderedTable Attempt

section
variable {Uri : Type} (E : Outside Uri)

section Reports

theorem reports_zvalToString (z : Zval) : (E.zvalToString z).Reports := by
  induction z using Outside.zvalToString.induct with
  | case1 => exact reports_pure _
  | case2 z ih => exact ih
  | case3 s => exact reports_pure _
  | case4 z hnull hreference hstring =>
    cases z with
    | null => exact (hnull rfl).elim
    | reference z => exact (hreference z rfl).elim
    | string s => exact (hstring s rfl).elim
    | _ => exact reports_userCode _

theorem keeps_zvalToString (z : Zval) : (E.zvalToString z).Keeps := by
  induction z using Outside.zvalToString.induct with
  | case1 => exact keeps_pure _
  | case2 z ih => exact ih
  | case3 s => exact keeps_pure _
  | case4 z hnull hreference hstring =>
    cases z with
    | null => exact (hnull rfl).elim
    | reference z => exact (hreference z rfl).elim
    | string s => exact (hstring s rfl).elim
    | _ => exact keeps_userCode _

theorem reports_deprecate (notice : String) : (E.deprecate notice).Reports := reports_userCode _

theorem reports_setTlsBool (o : TlsDriverOption) (z : Zval) (uri : Uri) :
    (E.setTlsBool o z uri).Reports := reports_orThrow _ _

theorem reports_setTlsString (o : TlsDriverOption) (z : Zval) (uri : Uri) :
    (E.setTlsString o z uri).Reports :=
  (reports_zvalToString E z).bind fun _ => reports_orThrow _ _

theorem reports_applyFirst {set : SetTlsOption Uri} (hset : ∀ o z uri, (set o z uri).Reports)
    (options : Options) (os : List TlsDriverOption) (uri : Uri) :
    (E.applyFirst set options os uri).Reports := by
  induction os with
  | nil => exact reports_pure _
  | cons o os ih =>
    rw [Outside.applyFirst]
    split
    · exact (hset _ _ _).bind fun _ => (reports_deprecate E _).bind fun _ => reports_pure _
    · exact ih

theorem reports_applyDriverOptionsToUri (driverOptions : Option Options) (uri : Uri) :
    (E.applyDriverOptionsToUri driverOptions uri).Reports := by
  cases driverOptions with
  | none => exact reports_pure _
  | some options =>
    have hbool := reports_applyFirst E (reports_setTlsBool E) options
    have hstring := reports_applyFirst E (reports_setTlsString E) options
    exact (hbool _ _).bind fun _ => (hbool _ _).bind fun _ => (hstring _ _).bind fun _ =>
      (hstring _ _).bind fun _ => hstring _ _

theorem reports_rejectOption (unsupported : Bool) (options : Options) (key message : String) :
    (rejectOption unsupported options key message).Reports := by
  unfold rejectOption
  split
  · exact reports_throw _
  · exact reports_pure _

theorem reports_fetchSslOptString (options : Options) (key : String) :
    (E.fetchSslOptString options key).Reports := by
  unfold Outside.fetchSslOptString
  split
  · exact reports_pure _
  · exact (reports_zvalToString E _).bind fun _ => reports_pure _

theorem reports_fetchCaDir (options : Options) : (E.fetchCaDir options).Reports := by
  unfold Outside.fetchCaDir
  split
  · exact (reports_fetchSslOptString E options _).bind fun _ =>
      (reports_deprecate E _).bind fun _ => reports_pure _
  · exact reports_fetchSslOptString E options _

theorem reports_makeSslOpt (library : SslLibrary) (driverOptions : Option Options) (uri : Uri) :
    (E.makeSslOpt library driverOptions uri).Reports := by
  cases driverOptions with
  | none => exact reports_pure _
  | some options =>
    exact (reports_rejectOption _ _ _ _).bind fun _ => (reports_rejectOption _ _ _ _).bind fun _ =>
      (reports_rejectOption _ _ _ _).bind fun _ => (reports_fetchCaDir E options).bind fun _ =>
      (reports_fetchSslOptString E options _).bind fun _ => reports_pure _

theorem reports_toBson (z : Zval) : (E.toBson z).Reports := fun eg h => by
  simp [Outside.toBson] at h

theorem keeps_toBson (z : Zval) : (E.toBson z).Keeps := fun eg hne h => by
  obtain ⟨thrown,heq,-⟩ := throws_zvalToBson E.libbson E.userland z .none eg
  have hnil : (zvalToBson E.libbson E.userland z .none eg).2.2 = [] := h
  rw [hnil] at heq
  exact hne (List.append_eq_nil_iff.mp heq.symm).2

theorem reports_applyTls (driverOptions : Option Options) (uri : Uri) :
    (E.applyTls driverOptions uri).Reports := by
  unfold Outside.applyTls
  split
  · exact (reports_applyDriverOptionsToUri E _ _).bind fun _ =>
      (reports_makeSslOpt E _ _ _).bind fun _ => reports_check.bind fun _ =>
      (reports_ofExcept _).bind fun _ => reports_pure _
  · split
    · exact reports_throw _
    · exact reports_pure _

theorem reports_prepareUri (a : ManagerArgs) : (E.prepareUri a).Reports := by
  have hencode : (E.encodeOptions a.options).Reports := by
    unfold Outside.encodeOptions
    split
    · exact reports_toBson E _
    · exact reports_pure _
  exact hencode.bind fun _ => reports_check.bind fun _ => (reports_ofExcept _).bind fun _ =>
    (reports_ofExcept _).bind fun _ => (reports_ofExcept _).bind fun _ =>
    (reports_ofExcept _).bind fun _ => (reports_ofExcept _).bind fun _ => reports_applyTls E _ _

theorem reports_keyVaultManager (s : Process) (m : Manager) (autoEncryption : Options) :
    (keyVaultManager s m autoEncryption).Reports := by
  unfold keyVaultManager
  split
  · exact reports_pure _
  · split
    · exact reports_throw _
    · split
      · exact reports_throw _
      · exact reports_pure _

theorem reports_keyVaultNamespace (autoEncryption : Options) :
    (E.keyVaultNamespace autoEncryption).Reports := by
  unfold Outside.keyVaultNamespace
  split
  · exact reports_pure _
  · exact (reports_zvalToString E _).bind fun _ => (reports_orThrow _ _).bind fun _ =>
      reports_pure _

theorem reports_encryptionDocument (autoEncryption : Options) (key : String)
    (accepts : Zval → Bool) (rejection : String) :
    (E.encryptionDocument autoEncryption key accepts rejection).Reports := by
  unfold Outside.encryptionDocument
  split
  · exact reports_pure _
  · split
    · exact (reports_toBson E _).bind fun _ => reports_check.bind fun _ => reports_pure _
    · exact reports_throw _

theorem reports_enableAutoEncryptionOpts (uri : Uri) (keyVaultClient : Option ℕ)
    (autoEncryption : Options) :
    (E.enableAutoEncryptionOpts uri keyVaultClient autoEncryption).Reports := by
  unfold Outside.enableAutoEncryptionOpts
  refine (reports_keyVaultNamespace E _).bind fun _ =>
    (reports_encryptionDocument E _ _ _ _).bind fun _ =>
    (reports_encryptionDocument E _ _ _ _).bind fun _ =>
    (reports_encryptionDocument E _ _ _ _).bind fun _ => ?_
  split
  · exact reports_throw _
  · exact reports_pure _

theorem reports_finish (uri : Uri) (driverOptions : Option Options) :
    (do E.setServerapiOpts uri driverOptions; E.apmSetCallbacks uri :
      Attempt Exception Unit).Reports := by
  refine Reports.bind ?_ fun _ => ?_
  · unfold Outside.setServerapiOpts
    split
    · exact reports_pure _
    · split
      · exact reports_throw _
      · split
        · exact reports_throw _
        · exact reports_pure _
  · unfold Outside.apmSetCallbacks
    split
    · exact reports_pure _
    · exact reports_throw _

end Reports

/-- A hash tells the pid of the process that made it. -/
theorem hashPrefix_injective {pid pid' : ℕ} {rest rest' : Bytes}
    (h : hashPrefix pid ++ rest = hashPrefix pid' ++ rest') : pid = pid' := by
  have hdigits : ∀ (n : ℕ) (r : Bytes),
      (digits n ++ [59] ++ r).takeWhile (· ≠ 59) = digits n := fun n r => by
    have hne : ∀ b ∈ digits n, decide (b ≠ 59) = true := fun b hb => by
      have hb' := toNat_of_mem_digits hb
      have : b ≠ 59 := fun he => by simp [he] at hb'
      simpa using this
    rw [List.append_assoc,List.takeWhile_append_of_pos hne]
    simp
  simp only [hashPrefix,List.append_assoc,List.append_cancel_left_eq] at h
  have heq : digits pid = digits pid' := by
    rw [← hdigits pid rest,← hdigits pid' rest',List.append_assoc,List.append_assoc,h]
  have hdecimal := congrArg decimal heq
  rw [decimal_digits,decimal_digits] at hdecimal
  exact Int.ofNat_inj.mp hdecimal

/-- The hash is made with nothing pending, and starts with the pid. -/
theorem makeClientHash_eq_some {s : Process} {a : ManagerArgs} {eg : Pending} {hash : Bytes}
    (h : E.makeClientHash s a [] = (some hash,eg)) :
    eg = [] ∧ ∃ rest, hash = hashPrefix s.pid ++ rest := by
  obtain ⟨serialized,eg₁,-,h⟩ := bind_eq_some.mp h
  obtain ⟨_,eg₂,hcheck,h⟩ := bind_eq_some.mp h
  rw [(check_eq_some.mp hcheck).2,pure_apply] at h
  simp only [Prod.mk.injEq,Option.some.injEq] at h
  exact ⟨h.2.symm,serialized,h.1.symm⟩

theorem reports_makeClientHash (s : Process) (a : ManagerArgs) : (E.makeClientHash s a).Reports :=
  (reports_userCode _).bind fun _ => reports_check.bind fun _ => reports_pure _

theorem managerOf_mem {s : Process} {z : Zval} {m : Manager} (h : s.managerOf z = some m) :
    m ∈ s.objects := by
  unfold Process.managerOf at h
  split at h
  · split at h
    · exact List.mem_of_find?_eq_some h
    · simp at h
  · simp at h

/-- The key vault Manager that the driver options of a Manager name. -/
def Process.NamesKeyVault (s : Process) (persistent : Bool) (driverOptions : Option Options)
    (keyVault : Option Manager) : Prop :=
  match driverOptions.bind (·.fetch "autoEncryption") with
  | none => keyVault = none
  | some (.array _ autoEncryption) =>
    match Options.fetch autoEncryption "keyVaultClient" with
    | none => keyVault = none
    | some z => ∃ k, keyVault = some k ∧ s.managerOf z = some k ∧ k.usePersistentClient = persistent
  | some _ => False

theorem Process.NamesKeyVault.mem {s : Process} {persistent : Bool}
    {driverOptions : Option Options} {keyVault : Option Manager}
    (h : s.NamesKeyVault persistent driverOptions keyVault) :
    ∀ k, keyVault = some k → k ∈ s.objects := by
  rintro k rfl
  unfold NamesKeyVault at h
  split at h
  · cases h
  · split at h
    · cases h
    · obtain ⟨k',hk,hof,-⟩ := h
      cases hk
      exact managerOf_mem hof
  · cases h

theorem keyVaultManager_eq_some {s : Process} {m : Manager} {autoEncryption : Options}
    {eg eg' : Pending} {keyVault : Option Manager}
    (h : keyVaultManager s m autoEncryption eg = (some keyVault,eg')) :
    match autoEncryption.fetch "keyVaultClient" with
    | none => keyVault = none
    | some z => ∃ k, keyVault = some k ∧ s.managerOf z = some k ∧
        k.usePersistentClient = m.usePersistentClient := by
  unfold keyVaultManager at h
  cases hfetch : autoEncryption.fetch "keyVaultClient" with
  | none =>
    rw [hfetch] at h
    exact (Option.some.inj (Prod.ext_iff.mp h).1).symm
  | some z =>
    cases hof : s.managerOf z with
    | none => simp [hfetch,hof,throw_apply] at h
    | some k =>
      by_cases hsame : m.usePersistentClient ≠ k.usePersistentClient
      · simp [hfetch,hof,hsame,throw_apply] at h
      · simp only [hfetch,hof,hsame,if_false,pure_apply,Prod.mk.injEq,Option.some.injEq] at h
        exact ⟨k,h.1.symm,hof,(not_not.mp hsame).symm⟩

theorem enableAutoEncryptionOpts_eq_some {uri : Uri} {keyVaultClient client : Option ℕ}
    {autoEncryption : Options} {eg eg' : Pending}
    (h : E.enableAutoEncryptionOpts uri keyVaultClient autoEncryption eg = (some client,eg')) :
    client = keyVaultClient := by
  obtain ⟨keyVaultNamespace,_,-,h⟩ := bind_eq_some.mp h
  obtain ⟨kmsProviders,_,-,h⟩ := bind_eq_some.mp h
  obtain ⟨schemaMap,_,-,h⟩ := bind_eq_some.mp h
  obtain ⟨extra,_,-,h⟩ := bind_eq_some.mp h
  cases henable : E.enableAutoEncryption uri ⟨keyVaultClient,keyVaultNamespace,kmsProviders,
      schemaMap,(autoEncryption.fetch "bypassAutoEncryption").any Zval.isTrue,extra⟩ with
  | none =>
    simp only [henable,pure_apply,Prod.mk.injEq,Option.some.injEq] at h
    exact h.1.symm
  | some e => simp [henable,throw_apply] at h

/-- Failure has thrown; success gives libmongoc the client of the Manager that is recorded. -/
theorem setAutoEncryptionOpts_cases (s : Process) {m : Manager} (uri : Uri)
    (driverOptions : Option Options) (eg : Pending) (hm : m.keyVaultClientManager = none) :
    ∃ keyVault, (E.setAutoEncryptionOpts s m uri driverOptions eg).1 =
        { m with keyVaultClientManager := keyVault } ∧
      (∀ client, (E.setAutoEncryptionOpts s m uri driverOptions eg).2.1 = some client →
        client = keyVault.bind (·.client) ∧
          s.NamesKeyVault m.usePersistentClient driverOptions keyVault) ∧
      ((E.setAutoEncryptionOpts s m uri driverOptions eg).2.1 = none →
        (E.setAutoEncryptionOpts s m uri driverOptions eg).2.2 ≠ []) := by
  have hself : m = { m with keyVaultClientManager := none } := by
    cases m; cases hm; rfl
  unfold Outside.setAutoEncryptionOpts Process.NamesKeyVault
  split
  · rename_i hnone
    exact ⟨none,hself,by simp [hnone],by simp⟩
  · split
    · exact ⟨none,hself,by simp [throw_apply],by simp [throw_apply]⟩
    · split
      · rename_i ht autoEncryption hbind
        have hreports := reports_keyVaultManager s m autoEncryption eg
        rw [hbind]
        split
        · rename_i eg' hkey
          rw [hkey] at hreports
          exact ⟨none,hself,by simp,fun _ => hreports rfl⟩
        · rename_i keyVault eg' hkey
          refine ⟨keyVault,rfl,fun client h => ⟨?_,keyVaultManager_eq_some hkey⟩,
            fun h => reports_enableAutoEncryptionOpts E uri _ autoEncryption eg' h⟩
          exact enableAutoEncryptionOpts_eq_some E (Prod.ext h rfl)
      · exact ⟨none,hself,by simp [throw_apply],by simp [throw_apply]⟩

def Manager.withClient (m : Manager) (hash : Bytes) (persistent : Bool) (client : ℕ)
    (keyVault : Option Manager) : Manager :=
  { m with clientHash := some hash, usePersistentClient := persistent, client := some client,
           keyVaultClientManager := keyVault }

def Process.withRegistered (s : Process) (handshakes : List HandshakeData) (m : Manager) :
    Process :=
  let made : MongocClient := ⟨s.pid,m.keyVaultClientManager.bind (·.client)⟩
  clientRegister { s with clients := s.clients ++ [made], handshakes := handshakes } m
    s.clients.length

/-- A client as a construction makes it: in this process, and with a key vault client only if a
live Manager owns that. -/
def Process.Makes (s : Process) (record : MongocClient) : Prop :=
  record.createdIn = s.pid ∧
    ∀ k, record.keyVaultClient = some k → ∃ o ∈ s.objects, o.client = some k

/-- The three ways to leave `phongo_manager_init`. -/
inductive Leaves (s : Process) (m : Manager) (a : ManagerArgs) : Initialised → Prop
  | failed (clients : List MongocClient) (handshakes : List HandshakeData) (m' : Manager)
      (eg : Pending)
      (hclients : ∀ record ∈ clients, s.Makes record)
      (hid : m'.id = m.id) (hclient : ∀ c, m'.client = some c → c = s.clients.length) (hne : eg ≠ []) :
      Leaves s m a
        ⟨{ s with clients := s.clients ++ clients, handshakes := handshakes },m',eg⟩
  | found (hash : Bytes) (client : ℕ) (hhash : E.makeClientHash s a [] = (some hash,[]))
      (hpersistent : usePersistentClient a.driverOptions = true)
      (hfind : s.findPersistentClient hash = some client) :
      Leaves s m a ⟨s,m.withClient hash true client none,[]⟩
  | registered (hash : Bytes) (keyVault : Option Manager) (handshakes : List HandshakeData)
      (eg : Pending) (hhash : E.makeClientHash s a [] = (some hash,[]))
      (hnone : usePersistentClient a.driverOptions = true → s.findPersistentClient hash = none)
      (hkeyVault : s.NamesKeyVault (usePersistentClient a.driverOptions) a.driverOptions keyVault)
      (m' : Manager)
      (hm : m' = m.withClient hash (usePersistentClient a.driverOptions) s.clients.length
        keyVault) :
      Leaves s m a ⟨s.withRegistered handshakes m',m',eg⟩

theorem finishClient_leaves {s : Process} {m : Manager} {a : ManagerArgs} {hash : Bytes}
    (handshakes : List HandshakeData) (uri : Uri) (eg : Pending)
    (hkey : m.keyVaultClientManager = none) (hhash : E.makeClientHash s a [] = (some hash,[]))
    (hnone : usePersistentClient a.driverOptions = true → s.findPersistentClient hash = none) :
    Leaves E s m a (E.finishClient
      { s with clients := s.clients ++ [⟨s.pid,none⟩], handshakes := handshakes }
      { m with clientHash := some hash, usePersistentClient := usePersistentClient a.driverOptions
               client := some s.clients.length } s.clients.length uri a.driverOptions eg) := by
  obtain ⟨keyVault,hm,hclient,hfails⟩ := setAutoEncryptionOpts_cases E
    { s with clients := s.clients ++ [⟨s.pid,none⟩], handshakes := handshakes }
    (m:={ m with clientHash := some hash, client := some s.clients.length
                 usePersistentClient := usePersistentClient a.driverOptions }) uri a.driverOptions
    eg hkey
  unfold Outside.finishClient
  generalize E.setAutoEncryptionOpts _ _ uri a.driverOptions eg = r at hm hclient hfails
  obtain ⟨m',_ | client,eg'⟩ := r
  · subst hm
    exact .failed [⟨s.pid,none⟩] _ _ _ (by simp [Process.Makes]) rfl
      (fun c h => (Option.some.inj h).symm) (hfails rfl)
  · subst hm
    obtain ⟨rfl,hnames⟩ := hclient client rfl
    have hset : (s.clients ++ [(⟨s.pid,none⟩ : MongocClient)]).set s.clients.length
        ⟨s.pid,keyVault.bind (·.client)⟩ = s.clients ++ [⟨s.pid,keyVault.bind (·.client)⟩] := by
      simp
    have hreports := reports_finish E uri a.driverOptions eg'
    dsimp only
    rw [hset]
    generalize (do E.setServerapiOpts uri a.driverOptions; E.apmSetCallbacks uri :
      Attempt Exception Unit) eg' = r at hreports
    obtain ⟨_ | _,eg''⟩ := r
    · refine .failed _ _ _ _ (fun record hr => ?_) rfl
        (fun c h => (Option.some.inj h).symm) (hreports rfl)
      obtain rfl := List.mem_singleton.mp hr
      refine ⟨rfl,fun k hk => ?_⟩
      obtain ⟨o,ho,hk⟩ := Option.bind_eq_some_iff.mp hk
      exact ⟨o,hnames.mem o ho,hk⟩
    · exact .registered hash keyVault handshakes eg'' hhash hnone hnames _ rfl

theorem makeMongoClient_leaves {s : Process} {m : Manager} {a : ManagerArgs} {hash : Bytes}
    (uri : Uri) (eg : Pending) (hclient : m.client = none)
    (hkey : m.keyVaultClientManager = none) (hhash : E.makeClientHash s a [] = (some hash,[]))
    (hnone : usePersistentClient a.driverOptions = true → s.findPersistentClient hash = none) :
    Leaves E s m a (E.makeMongoClient s
      { m with clientHash := some hash, usePersistentClient := usePersistentClient a.driverOptions }
      uri a eg) := by
  unfold Outside.makeMongoClient
  dsimp only
  split
  · exact finishClient_leaves E _ uri _ hkey hhash hnone
  · have hf := Leaves.failed (E:=E) (s:=s) (m:=m) (a:=a) []
      (s.handshakes ++ (E.setHandshakeData a.driverOptions eg).1.toList)
      { m with clientHash := some hash, usePersistentClient := usePersistentClient a.driverOptions }
      (throwException .runtime "Failed to create Manager from URI: '%s'"
        [.bytes a.uriString.bytes] (E.setHandshakeData a.driverOptions eg).2) (by simp) rfl
      (fun c h => by simp [hclient] at h) (List.cons_ne_nil _ _)
    simpa using hf

/-- `phongo_manager_init` on a fresh Manager. -/
theorem managerInit_leaves (s : Process) {m : Manager} (a : ManagerArgs)
    (hclient : m.client = none) (hkey : m.keyVaultClientManager = none) :
    Leaves E s m a (E.managerInit s m a) := by
  have hfailed : ∀ (m' : Manager) (eg : Pending), m'.id = m.id → m'.client = none → eg ≠ [] →
      Leaves E s m a ⟨s,m',eg⟩ := fun m' eg hid hc hne => by
    have hf := Leaves.failed (E:=E) (s:=s) (m:=m) (a:=a) [] s.handshakes m' eg
      (by simp) hid (fun c h => by simp [hc] at h) hne
    simpa using hf
  have hreports := reports_makeClientHash E s a []
  unfold Outside.managerInit
  rcases hhash : E.makeClientHash s a [] with ⟨_ | hash,eg⟩
  · rw [hhash] at hreports
    exact hfailed _ _ rfl hclient (hreports rfl)
  · obtain ⟨rfl,-⟩ := makeClientHash_eq_some E hhash
    dsimp only
    split
    · rename_i client hfound
      split at hfound
      · rename_i hpersistent
        have hf := Leaves.found (E:=E) (m:=m) hash client hhash hpersistent hfound
        simpa [Manager.withClient,hpersistent,hkey] using hf
      · simp at hfound
    · rename_i hfound
      have hnone : usePersistentClient a.driverOptions = true →
          s.findPersistentClient hash = none := fun h => by simpa [h] using hfound
      have hprepare := reports_prepareUri E a []
      split
      · rename_i eg hfails
        rw [hfails] at hprepare
        exact hfailed _ _ rfl hclient (hprepare rfl)
      · exact makeMongoClient_leaves E _ _ hclient hkey hhash hnone

end

end Phongo
