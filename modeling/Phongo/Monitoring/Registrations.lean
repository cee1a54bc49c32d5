import Mathlib.Tactic.Common
import Phongo.Manager.Steps
import Phongo.Monitoring.Apm

/-! Who is to be notified: the HashTables hold the subscribers that were added and not removed
since, and an event's HashTable holds each of them once, in the order of the registries. -/
namespace Phongo
open OrderedTable

namespace Process
variable {s s' : Process} {pids : List ℕ} {Uri : Type}

/-- Managers are registered at the end, and objects stay until they are freed. -/
structure KeepsManagers (s s' : Process) : Prop where
  managers : s'.managers.Sublist s.managers ∨ s'.managers = s.managers ++ [s.made]
  objects : s.objects ⊆ s'.objects

theorem KeepsManagers.of_eq (hmanagers : s'.managers = s.managers)
    (hobjects : s'.objects = s.objects) : s.KeepsManagers s' :=
  ⟨Or.inl (hmanagers ▸ List.Sublist.refl _),hobjects ▸ List.Subset.refl _⟩

theorem Sound.keepsManagers_resetClientIfPidDiffers (h : s.Sound pids) (pid : ℕ) {m : Manager}
    (hm : m ∈ s.objects) : (s.resetClientIfPidDiffers pid m).managers = s.managers ∧
      (s.resetClientIfPidDiffers pid m).objects = s.objects := by
  unfold Process.resetClientIfPidDiffers
  split
  · obtain ⟨persistentClients,requestClients,calls,heq⟩ := h.clientResetOnce_frame hm
    rw [heq]
    exact ⟨rfl,rfl⟩
  · exact ⟨rfl,rfl⟩

theorem perform_managers (s : Process) (m : Manager) (operation : Operation) :
    (s.perform m operation).managers = s.managers ∧
      (s.perform m operation).objects = s.objects := by
  cases operation with
  | rejected => exact ⟨rfl,rfl⟩
  | execute cursor => cases cursor <;> exact ⟨rfl,rfl⟩
  | startSession started => cases started <;> exact ⟨rfl,rfl⟩

theorem Sound.keepsManagers_construct (h : s.Sound pids) (E : Outside Uri) (a : ManagerArgs) :
    s.KeepsManagers (E.construct s a).1 := by
  have hconstructs := construct_constructs E h a
  generalize E.construct s a = r at hconstructs
  cases hconstructs with
  | failed records handshakes calls eg hrecords hcalls hne => exact .of_eq rfl rfl
  | left hash keyVault handshakes eg hhash hpersistent hnone hkeyVault hne =>
    exact .of_eq (managers_withRegistered _ _ _) (objects_withRegistered _ _ _)
  | found hash client hhash hpersistent hfind m hm =>
    exact ⟨Or.inr rfl,List.subset_append_left _ _⟩
  | registered hash keyVault handshakes hhash hnone hkeyVault m hm =>
    exact ⟨Or.inr rfl,List.subset_append_left _ _⟩

theorem freeManager_managers (s : Process) (m : Manager) :
    (s.freeManager m).managers = s.managers.erase m.id ∧
      (s.freeManager m).objects = s.objects.filter (·.id ≠ m.id) := by
  unfold Process.freeManager Process.clientUnregister Process.pclientDestroy
  dsimp only
  split
  · split
    · exact ⟨rfl,rfl⟩
    · split
      · split <;> exact ⟨rfl,rfl⟩
      · exact ⟨rfl,rfl⟩
  · exact ⟨rfl,rfl⟩

/-- What an action does to the Managers, unless it frees one. -/
theorem Sound.keepsManagers_run (h : s.Sound pids) {action : Action Uri}
    (hfree : ∀ id, action ≠ .freeManager id) (hrun : s.run action = some s') :
    s.KeepsManagers s' := by
  cases action with
  | construct E a =>
    cases hrun
    exact h.keepsManagers_construct E a
  | freeManager id => exact absurd rfl (hfree id)
  | getServer id =>
    obtain ⟨m,-,rfl⟩ := Option.map_eq_some_iff.mp hrun
    exact .of_eq rfl rfl
  | operate through operation =>
    simp only [Process.run] at hrun
    split at hrun
    · rename_i createdByPid m htarget
      cases hrun
      have hreset := h.keepsManagers_resetClientIfPidDiffers createdByPid (h.target_mem htarget)
      have hperform := perform_managers (s.resetClientIfPidDiffers createdByPid m) m operation
      exact .of_eq (hperform.1.trans hreset.1) (hperform.2.trans hreset.2)
    · cases hrun
  | freeHandle id =>
    obtain ⟨handle,hfind,rfl⟩ := Option.map_eq_some_iff.mp hrun
    have hreset := (h.dropHandle handle).keepsManagers_resetClientIfPidDiffers
      handle.createdByPid (h.handleAlive handle (List.mem_of_find?_eq_some hfind))
    unfold Process.freeHandle
    dsimp only
    split
    · exact .of_eq rfl rfl
    · exact .of_eq hreset.1 hreset.2
    · exact .of_eq hreset.1 hreset.2

theorem freeManager_run {id : ℕ} (hrun : s.run (.freeManager id : Action Uri) = some s') :
    s'.managers.Sublist s.managers ∧ s'.objects = s.objects.filter (·.id ≠ id) := by
  simp only [Process.run] at hrun
  split at hrun
  · rename_i m hfind
    split at hrun
    · cases hrun
    · cases hrun
      have hid : m.id = id := by simpa using List.find?_some hfind
      obtain ⟨hmanagers,hobjects⟩ := freeManager_managers s m
      rw [hmanagers,hobjects,hid]
      exact ⟨List.erase_sublist,rfl⟩
  · cases hrun

end Process

/-- Who was added and not removed since, at whom, in the order of the additions. -/
structure Registrations where
  globally : List SubscriberObject
  ofManager : ℕ → List SubscriberObject

namespace Registrations

def start : Registrations := ⟨[],fun _ => []⟩

def change (r : Registrations) (manager : Option ℕ)
    (f : List SubscriberObject → List SubscriberObject) : Registrations :=
  match manager with
  | none => { r with globally := f r.globally }
  | some id => { r with ofManager := Function.update r.ofManager id (f (r.ofManager id)) }

/-- The registrations after an action; nothing but this changes them. -/
def afterUser {Uri : Type} (r : Registrations) : UserAction Uri → Registrations
  | .addSubscriber manager (some o) _ =>
    if o.instanceOf .subscriber then r.change manager fun l => if o ∈ l then l else l ++ [o]
    else r
  | .removeSubscriber manager (some o) _ =>
    if o.instanceOf .subscriber then r.change manager (·.erase o) else r
  | .act (.freeManager id) => r.change (some id) fun _ => []
  | _ => r

def after {Uri : Type} (r : Registrations) : ApmAction Uri → Registrations
  | .user action => r.afterUser action
  | _ => r

end Registrations

structure Monitored where
  apm : Apm
  registrations : Registrations

namespace Monitored

def start (process : Process) : Monitored := ⟨.start process,.start⟩

def Step {Uri : Type} (w : Monitored) (action : ApmAction Uri) (w' : Monitored) : Prop :=
  w.apm.Step action w'.apm ∧ w'.registrations = w.registrations.after action

/-- The CommandSubscribers registered globally, and then those registered with the Managers that
hold the client, each at its first place. -/
def expected (w : Monitored) (client : ℕ) : List SubscriberObject :=
  ((w.registrations.globally ++
      (w.apm.process.managers.filter (w.apm.holdsClient client)).flatMap
        w.registrations.ofManager).filter (·.instanceOf .commandSubscriber)).eraseDups

end Monitored

namespace Apm

/-- Subscribers are alive as long as a HashTable holds them, and no two objects that are alive
have the same handle. -/
structure Tidy (s : Apm) : Prop where
  handles : ∀ o ∈ s.objects, ∀ o' ∈ s.objects, o.handle = o'.handle → o = o'
  keyed : ∀ t ∈ s.tables, Keyed SubscriberObject.handle t
  alive : ∀ t ∈ s.tables, ∀ o ∈ values t, o ∈ s.objects
  managersNodup : (keys s.managerSubscribers).Nodup

structure Refines (s : Apm) (r : Registrations) : Prop where
  globally : s.subscribers.map values = some r.globally
  ofManager : ∀ id, values ((find? s.managerSubscribers id).getD []) = r.ofManager id

section
variable {s : Apm} {r : Registrations}

theorem addSubscribersToNotify_eq (ce : SubscriberInterface) (source target : Subscribers) :
    addSubscribersToNotify ce source target =
      ((values source).filter (·.instanceOf ce)).foldl (insertNew SubscriberObject.handle) target :=
  by rw [List.foldl_filter]; rfl

theorem foldl_managers (hrefines : s.Refines r) (ce : SubscriberInterface) (client : ℕ)
    (managers : List ℕ) (target : Subscribers) :
    managers.foldl (fun target id =>
      match find? s.managerSubscribers id with
      | some source =>
        if s.holdsClient client id then addSubscribersToNotify ce source target else target
      | none => target) target =
    (((managers.filter (s.holdsClient client)).flatMap r.ofManager).filter
      (·.instanceOf ce)).foldl (insertNew SubscriberObject.handle) target := by
  induction managers generalizing target with
  | nil => rfl
  | cons id managers ih =>
    have hid := hrefines.ofManager id
    rw [List.foldl_cons,ih,List.filter_cons]
    cases hfind : find? s.managerSubscribers id with
    | none =>
      have hempty : r.ofManager id = [] := by rw [← hid,hfind]; rfl
      by_cases hholds : s.holdsClient client id = true
      · rw [if_pos hholds,List.flatMap_cons,hempty,List.nil_append]
      · rw [if_neg hholds]
    | some source =>
      have hsource : values source = r.ofManager id := by rw [← hid,hfind]; rfl
      by_cases hholds : s.holdsClient client id = true
      · simp only [if_pos hholds]
        rw [List.flatMap_cons,List.filter_append,List.foldl_append,← hsource,
          addSubscribersToNotify_eq]
      · simp only [if_neg hholds]

theorem Tidy.registered_alive {w : Monitored} (h : w.apm.Tidy)
    (hrefines : w.apm.Refines w.registrations) (managers : List ℕ) :
    ∀ o ∈ w.registrations.globally ++ managers.flatMap w.registrations.ofManager,
      o ∈ w.apm.objects := by
  obtain ⟨source,hsource,hvalues⟩ := Option.map_eq_some_iff.mp hrefines.globally
  have hglobal : source ∈ w.apm.tables := by simp [tables,hsource]
  intro o ho
  rcases List.mem_append.mp ho with ho | ho
  · exact h.alive source hglobal o (hvalues ▸ ho)
  · obtain ⟨id,-,ho⟩ := List.mem_flatMap.mp ho
    rw [← hrefines.ofManager id] at ho
    cases hfind : find? w.apm.managerSubscribers id with
    | none => simp [hfind,values] at ho
    | some t =>
      rw [hfind] at ho
      refine h.alive t ?_ o ho
      have hmem := List.mem_map_of_mem (f:=Prod.snd) (mem_of_find?_eq_some _ _ _ hfind)
      exact List.mem_append_left _ (List.mem_append_right _ hmem)

/-- The HashTable of an event holds the expected subscribers in order. -/
theorem Tidy.values_getSubscribersToNotify {w : Monitored} (h : w.apm.Tidy)
    (hrefines : w.apm.Refines w.registrations) (client : ℕ) :
    values (w.apm.getSubscribersToNotify .commandSubscriber client) = w.expected client := by
  obtain ⟨source,hsource,hvalues⟩ := Option.map_eq_some_iff.mp hrefines.globally
  have halive := h.registered_alive hrefines
    (w.apm.process.managers.filter (w.apm.holdsClient client))
  unfold getSubscribersToNotify
  simp only [hsource]
  refine (congrArg values (foldl_managers hrefines .commandSubscriber client _ _)).trans ?_
  rw [addSubscribersToNotify_eq,← List.foldl_append,hvalues,← List.filter_append]
  refine values_insertAll _ fun o ho o' ho' hhandle => ?_
  exact h.handles o (halive o (List.mem_of_mem_filter ho)) o'
    (halive o' (List.mem_of_mem_filter ho')) hhandle

theorem Tidy.expected_alive {w : Monitored} (h : w.apm.Tidy)
    (hrefines : w.apm.Refines w.registrations) (client : ℕ) :
    ∀ o ∈ w.expected client, o ∈ w.apm.objects := fun o ho =>
  h.registered_alive hrefines _ o (List.mem_of_mem_filter (List.mem_eraseDups.mp ho))

end

end Apm

end Phongo
