import Mathlib.Tactic.Common
import Phongo.Manager.Steps

/-! What a client hash tells of the arguments it was made from.
`php_phongo_manager_prepare_manager_for_hash` puts the hash of the key vault Manager in its place,
so the hash tells the arguments apart unless someone passes such a hash as an option. -/
namespace Phongo
open OrderedTable

/-- The "keyVaultClient" of the "autoEncryption" array. -/
def keyVaultOption (driverOptions : Options) : Option Zval :=
  match driverOptions.fetch "autoEncryption" with
  | some (.array _ autoEncryption) => Options.fetch autoEncryption "keyVaultClient"
  | _ => none

def replaceKeyVault (driverOptions : Options) (z : Zval) : Options :=
  match driverOptions.fetch "autoEncryption" with
  | some (.array ht autoEncryption) =>
    update driverOptions (symtable (ascii "autoEncryption"))
      (.array ht (update autoEncryption (symtable (ascii "keyVaultClient")) z))
  | _ => driverOptions

def Process.keyVaultOf (s : Process) (driverOptions : Option Options) : Option Manager :=
  (driverOptions.bind keyVaultOption).bind s.managerOf

def Manager.hashString (m : Manager) : Zval := .string (m.clientHash.getD [])

theorem prepareManagerForHash_eq (s : Process) (driverOptions : Options) :
    s.prepareManagerForHash driverOptions = match s.keyVaultOf (some driverOptions) with
      | some m => replaceKeyVault driverOptions m.hashString
      | none => driverOptions := by
  unfold Process.prepareManagerForHash Process.keyVaultOf keyVaultOption replaceKeyVault
  simp only [Option.bind_some]
  cases hfetch : driverOptions.fetch "autoEncryption" with
  | none => rfl
  | some z =>
    cases z with
    | array ht autoEncryption =>
      dsimp only
      cases (Options.fetch autoEncryption "keyVaultClient").bind s.managerOf with
      | none => rfl
      | some m => rfl
    | _ => rfl

section
variable {driverOptions : Options} {z : Zval}

theorem fetch_replaceKeyVault {ht : Option ℕ} {autoEncryption : Options} (z : Zval)
    (h : driverOptions.fetch "autoEncryption" = some (.array ht autoEncryption)) :
    (replaceKeyVault driverOptions z).fetch "autoEncryption" =
      some (.array ht (update autoEncryption (symtable (ascii "keyVaultClient")) z)) := by
  unfold replaceKeyVault
  rw [h]
  exact find?_update_self _ _ _

theorem keyVaultOption_eq_some (h : keyVaultOption driverOptions = some z) :
    ∃ ht autoEncryption, driverOptions.fetch "autoEncryption" = some (.array ht autoEncryption) ∧
      Options.fetch autoEncryption "keyVaultClient" = some z := by
  unfold keyVaultOption at h
  split at h
  · rename_i ht autoEncryption hfetch
    exact ⟨ht,autoEncryption,hfetch,h⟩
  · cases h

theorem keyVaultOption_replaceKeyVault (h : keyVaultOption driverOptions = some z) (z' : Zval) :
    keyVaultOption (replaceKeyVault driverOptions z') = some z' := by
  obtain ⟨ht,autoEncryption,hfetch,-⟩ := keyVaultOption_eq_some h
  rw [keyVaultOption,fetch_replaceKeyVault z' hfetch]
  exact find?_update_self _ _ _

theorem replaceKeyVault_replaceKeyVault (z z' : Zval) :
    replaceKeyVault (replaceKeyVault driverOptions z) z' = replaceKeyVault driverOptions z' := by
  cases hfetch : driverOptions.fetch "autoEncryption" with
  | none => simp [replaceKeyVault,hfetch]
  | some y =>
    cases y with
    | array ht autoEncryption =>
      have hreplaced := fetch_replaceKeyVault z hfetch
      rw [replaceKeyVault,hreplaced]
      simp [replaceKeyVault,hfetch]
    | _ => simp [replaceKeyVault,hfetch]

theorem usePersistentClient_replaceKeyVault (z : Zval) :
    usePersistentClient (some (replaceKeyVault driverOptions z)) =
      usePersistentClient (some driverOptions) := by
  have hfetch : (replaceKeyVault driverOptions z).fetch "disableClientPersistence" =
      driverOptions.fetch "disableClientPersistence" := by
    unfold replaceKeyVault
    split
    · exact find?_update_of_ne _ _ _ _ (by decide)
    · rfl
  unfold usePersistentClient
  simp only [Option.bind_some,hfetch]

end

/-- One construction: the process, the number of the object, the arguments, and the Manager given
as key vault. -/
structure Construction where
  pid : ℕ
  id : ℕ
  args : ManagerArgs
  keyVault : Option Manager

namespace Construction
variable {c c' : Construction}

/-- What `php_var_serialize` is given. -/
def prepared (c : Construction) : CString × Option Options × Option Options :=
  (c.args.uriString,c.args.options,c.args.driverOptions.map fun driverOptions =>
    match c.keyVault with
    | some m => replaceKeyVault driverOptions m.hashString
    | none => driverOptions)

/-- The arguments with the client of the key vault Manager for itself. -/
def compared (c : Construction) :
    CString × Option Options × Option Options × Option (Option ℕ) :=
  (c.args.uriString,c.args.options,c.args.driverOptions.map fun driverOptions =>
    match c.keyVault with
    | some _ => replaceKeyVault driverOptions .null
    | none => driverOptions,c.keyVault.map (·.client))

/-- The "keyVaultClient" option is a Manager if it is given. -/
def Named (c : Construction) : Prop :=
  (c.args.driverOptions.bind keyVaultOption).isSome = c.keyVault.isSome

theorem Named.exists (h : c.Named) {m : Manager} (hm : c.keyVault = some m) :
    ∃ driverOptions z, c.args.driverOptions = some driverOptions ∧
      keyVaultOption driverOptions = some z := by
  rw [Named,hm,Option.isSome_some,Option.isSome_iff_exists] at h
  obtain ⟨z,hz⟩ := h
  obtain ⟨driverOptions,hd,hz⟩ := Option.bind_eq_some_iff.mp hz
  exact ⟨driverOptions,z,hd,hz⟩

theorem keyVaultOption_prepared (h : c.Named) :
    c.prepared.2.2.bind keyVaultOption = c.keyVault.map Manager.hashString := by
  cases hm : c.keyVault with
  | none =>
    rw [Named,hm] at h
    simpa [prepared,hm] using h
  | some m =>
    obtain ⟨driverOptions,z,hd,hz⟩ := h.exists hm
    simp [prepared,hm,hd,keyVaultOption_replaceKeyVault hz]

theorem usePersistentClient_prepared (c : Construction) :
    usePersistentClient c.prepared.2.2 = usePersistentClient c.args.driverOptions := by
  unfold prepared
  cases c.args.driverOptions with
  | none => rfl
  | some driverOptions =>
    cases c.keyVault with
    | none => rfl
    | some m => exact usePersistentClient_replaceKeyVault _

/-- Arguments that are serialized alike are alike, provided that key vault Managers with the same
hash hold the same client. -/
theorem compared_eq (hc : c.Named) (hc' : c'.Named) (h : c.prepared = c'.prepared)
    (hclient : ∀ m m', c.keyVault = some m → c'.keyVault = some m' →
      m.hashString = m'.hashString → m.client = m'.client) : c.compared = c'.compared := by
  have hhash := keyVaultOption_prepared hc
  rw [h,keyVaultOption_prepared hc'] at hhash
  obtain ⟨huri,hrest⟩ := Prod.mk.inj h
  obtain ⟨hoptions,hdriver⟩ := Prod.mk.inj hrest
  unfold compared
  cases hm : c.keyVault with
  | none =>
    cases hm' : c'.keyVault with
    | none =>
      simp only [hm,hm'] at hdriver
      rw [huri,hoptions,hdriver]
    | some m' => simp [hm,hm'] at hhash
  | some m =>
    cases hm' : c'.keyVault with
    | none => simp [hm,hm'] at hhash
    | some m' =>
      simp only [hm,hm',Option.map_some,Option.some.injEq] at hhash
      obtain ⟨driverOptions,z,hd,hz⟩ := hc.exists hm
      obtain ⟨driverOptions',z',hd',hz'⟩ := hc'.exists hm'
      simp only [hm,hm',hd,hd',Option.map_some,Option.some.injEq] at hdriver
      have hreplaced := congrArg (replaceKeyVault · .null) hdriver
      simp only [replaceKeyVault_replaceKeyVault] at hreplaced
      rw [huri,hoptions,hd,hd',Option.map_some,Option.map_some,hreplaced,Option.map_some,
        Option.map_some,hclient m m' hm hm' hhash.symm]

end Construction

end Phongo
