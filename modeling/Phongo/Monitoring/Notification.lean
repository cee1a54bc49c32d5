import Mathlib.Tactic.Common
import Phongo.Monitoring.Dispatch

/-! Every event is notified once to each subscriber that is registered when it comes. -/
namespace Phongo
open OrderedTable Transition

namespace Apm

def tableOf (s : Apm) : Option ℕ → Subscribers
  | none => s.subscribers.getD []
  | some id => (find? s.managerSubscribers id).getD []

def put (s : Apm) (manager : Option ℕ) (t : Subscribers) : Apm :=
  match manager with
  | none => { s with subscribers := some t }
  | some id => { s with managerSubscribers := update s.managerSubscribers id t }

section
variable {s s' : Apm} {r : Registrations} {o : SubscriberObject} {Uri : Type}

theorem tableOf_values (h : s.Refines r) : (∀ id, values (s.tableOf (some id)) = r.ofManager id) ∧
    values (s.tableOf none) = r.globally := by
  obtain ⟨t,ht,hvalues⟩ := Option.map_eq_some_iff.mp h.globally
  exact ⟨h.ofManager,by simpa [tableOf,ht] using hvalues⟩

theorem Refines.put (h : s.Refines r) (manager : Option ℕ) {t : Subscribers}
    {f : List SubscriberObject → List SubscriberObject}
    (ht : values t = f (values (s.tableOf manager))) :
    (s.put manager t).Refines (r.change manager f) := by
  obtain ⟨hmanagers,hglobal⟩ := tableOf_values h
  cases manager with
  | none =>
    rw [hglobal] at ht
    exact ⟨congrArg some ht,h.ofManager⟩
  | some id =>
    rw [hmanagers id] at ht
    refine ⟨h.globally,fun id' => ?_⟩
    by_cases hid : id' = id
    · subst hid
      simp [Apm.put,Registrations.change,ht]
    · simp [Apm.put,Registrations.change,find?_update_of_ne _ _ _ _ hid,hid,h.ofManager]

theorem Tidy.of_tables (h : s.Tidy) (hobjects : s'.objects = s.objects)
    (htables : ∀ t ∈ s'.tables, t ∈ s.tables ∨
      Keyed SubscriberObject.handle t ∧ ∀ o ∈ values t, o ∈ s.objects)
    (hnodup : (keys s'.managerSubscribers).Nodup) : s'.Tidy := by
  refine ⟨?_,fun t ht => ?_,fun t ht o ho => ?_,hnodup⟩
  · rw [hobjects]
    exact h.handles
  · rcases htables t ht with ht | ⟨hkeyed,-⟩
    · exact h.keyed t ht
    · exact hkeyed
  · rw [hobjects]
    rcases htables t ht with ht | ⟨-,halive⟩
    · exact h.alive t ht o ho
    · exact halive o ho

theorem Tidy.of_same (h : s.Tidy) (hobjects : s'.objects = s.objects)
    (htables : ∀ t ∈ s'.tables, t ∈ s.tables)
    (hnodup : (keys s'.managerSubscribers).Nodup) : s'.Tidy :=
  h.of_tables hobjects (fun t ht => Or.inl (htables t ht)) hnodup

theorem mem_tables {t : Subscribers} : t ∈ s.tables ↔ s.subscribers = some t ∨
    (∃ e ∈ s.managerSubscribers, e.2 = t) ∨ ∃ d ∈ s.dispatches, d.subscribers = t := by
  simp [tables]

theorem Tidy.put (h : s.Tidy) (manager : Option ℕ) {t : Subscribers}
    (hkeyed : Keyed SubscriberObject.handle t) (halive : ∀ o ∈ values t, o ∈ s.objects) :
    (s.put manager t).Tidy := by
  cases manager with
  | none =>
    refine h.of_tables rfl (fun t' ht' => ?_) h.managersNodup
    rcases mem_tables.mp ht' with ht' | ht'
    · exact Or.inr (Option.some.inj ht' ▸ ⟨hkeyed,halive⟩)
    · exact Or.inl (mem_tables.mpr (Or.inr ht'))
  | some id =>
    refine h.of_tables rfl (fun t' ht' => ?_) (nodup_update _ id t h.managersNodup)
    rcases mem_tables.mp ht' with ht' | ⟨e,he,rfl⟩ | ht'
    · exact Or.inl (mem_tables.mpr (Or.inl ht'))
    · rcases mem_of_mem_update he with rfl | he
      · exact Or.inr ⟨hkeyed,halive⟩
      · exact Or.inl (mem_tables.mpr (Or.inr (Or.inl ⟨e,he,rfl⟩)))
    · exact Or.inl (mem_tables.mpr (Or.inr (Or.inr ht')))

theorem Tidy.tableOf (h : s.Tidy) (manager : Option ℕ) :
    Keyed SubscriberObject.handle (s.tableOf manager) ∧
      ∀ o ∈ values (s.tableOf manager), o ∈ s.objects := by
  have hempty : Keyed SubscriberObject.handle ([] : Subscribers) ∧
      ∀ o ∈ values ([] : Subscribers), o ∈ s.objects :=
    ⟨Keyed.nil,fun o ho => absurd ho List.not_mem_nil⟩
  cases manager with
  | none =>
    cases ht : s.subscribers with
    | none => simpa [Apm.tableOf,ht] using hempty
    | some t =>
      have hmem : t ∈ s.tables := mem_tables.mpr (Or.inl ht)
      simpa [Apm.tableOf,ht] using And.intro (h.keyed t hmem) (h.alive t hmem)
  | some id =>
    cases ht : find? s.managerSubscribers id with
    | none => simpa [Apm.tableOf,ht] using hempty
    | some t =>
      have hmem : t ∈ s.tables := mem_tables.mpr
        (Or.inr (Or.inl ⟨_,mem_of_find?_eq_some _ _ _ ht,rfl⟩))
      simpa [Apm.tableOf,ht] using And.intro (h.keyed t hmem) (h.alive t hmem)

theorem addSubscriber_cases (h : s.Refines r) (manager : Option ℕ)
    (subscriber : Option SubscriberObject) (rejection : Exception) :
    (subscriber.any (·.instanceOf .subscriber) = false ∧
      s.addSubscriber manager subscriber rejection = s.throw rejection) ∨
    (∃ o, subscriber = some o ∧ o.instanceOf .subscriber = true ∧
      s.addSubscriber manager subscriber rejection =
        s.put manager (insertNew SubscriberObject.handle (s.tableOf manager) o)) := by
  obtain ⟨t,ht,-⟩ := Option.map_eq_some_iff.mp h.globally
  by_cases hinstance : subscriber.any (·.instanceOf .subscriber) = true
  · obtain ⟨o,rfl,ho⟩ := (Option.any_eq_true _ _).mp hinstance
    have hadd : ∀ t, apmAddSubscriber (some t) (some o) =
        .ok (insertNew SubscriberObject.handle t o) := fun t => by
      simp only [apmAddSubscriber,checkArgsForAddAndRemove,ho,if_true]
      rfl
    refine Or.inr ⟨o,rfl,ho,?_⟩
    cases manager with
    | none => simp [addSubscriber,withSubscriber,ho,hadd,ht,put,tableOf]
    | some id => simp [addSubscriber,withSubscriber,ho,hadd,put,tableOf]
  · refine Or.inl ⟨by simpa using hinstance,?_⟩
    cases manager with
    | none => exact if_neg hinstance
    | some id => exact if_neg hinstance

theorem removeSubscriber_cases (h : s.Refines r) (manager : Option ℕ)
    (subscriber : Option SubscriberObject) (rejection : Exception) :
    (subscriber.any (·.instanceOf .subscriber) = false ∧
      s.removeSubscriber manager subscriber rejection = s.throw rejection) ∨
    (∃ o, subscriber = some o ∧ o.instanceOf .subscriber = true ∧
      (s.removeSubscriber manager subscriber rejection =
          s.put manager (erase (s.tableOf manager) o.handle) ∨
        s.tableOf manager = [] ∧ s.removeSubscriber manager subscriber rejection = s)) := by
  obtain ⟨t,ht,-⟩ := Option.map_eq_some_iff.mp h.globally
  by_cases hinstance : subscriber.any (·.instanceOf .subscriber) = true
  · obtain ⟨o,rfl,ho⟩ := (Option.any_eq_true _ _).mp hinstance
    have hremove : ∀ t, apmRemoveSubscriber (some t) (some o) = .ok (erase t o.handle) :=
      fun t => by
        simp only [apmRemoveSubscriber,checkArgsForAddAndRemove,ho,if_true]
        rfl
    refine Or.inr ⟨o,rfl,ho,?_⟩
    cases manager with
    | none => simp [removeSubscriber,withSubscriber,ho,hremove,ht,put,tableOf]
    | some id =>
      cases hfind : find? s.managerSubscribers id with
      | none => exact Or.inr ⟨by simp [tableOf,hfind],by simp [removeSubscriber,hfind,ho]⟩
      | some source =>
        exact Or.inl (by simp [removeSubscriber,withSubscriber,ho,hremove,hfind,put,tableOf])
  · refine Or.inl ⟨by simpa using hinstance,?_⟩
    cases manager with
    | none => exact if_neg hinstance
    | some id =>
      unfold removeSubscriber
      dsimp only
      split
      · exact if_neg hinstance
      · exact if_neg hinstance

theorem afterUser_of_rejected {manager : Option ℕ} {subscriber : Option SubscriberObject}
    {rejection : Exception} (h : subscriber.any (·.instanceOf .subscriber) = false) :
    r.afterUser (.addSubscriber manager subscriber rejection : UserAction Uri) = r ∧
      r.afterUser (.removeSubscriber manager subscriber rejection : UserAction Uri) = r := by
  cases subscriber with
  | none => exact ⟨rfl,rfl⟩
  | some o => simp_all [Registrations.afterUser]

theorem Tidy.create (h : s.Tidy) {handle : ℕ} (objClass : SubscriberClass)
    (hnew : ∀ o ∈ s.objects, o.handle ≠ handle) :
    Tidy { s with objects := s.objects ++ [⟨s.made,handle,objClass⟩], made := s.made + 1 } := by
  refine ⟨fun o ho o' ho' hhandle => ?_,h.keyed,fun t ht o ho => ?_,h.managersNodup⟩
  · rcases List.mem_append.mp ho with ho | ho
    · rcases List.mem_append.mp ho' with ho' | ho'
      · exact h.handles o ho o' ho' hhandle
      · rw [List.mem_singleton.mp ho'] at hhandle
        exact absurd hhandle (hnew o ho)
    · rcases List.mem_append.mp ho' with ho' | ho'
      · rw [List.mem_singleton.mp ho] at hhandle
        exact absurd hhandle.symm (hnew o' ho')
      · rw [List.mem_singleton.mp ho,List.mem_singleton.mp ho']
  · exact List.mem_append_left _ (h.alive t ht o ho)

theorem Tidy.free (h : s.Tidy) {id : ℕ} (hfree : ∀ t ∈ s.tables, ∀ o ∈ values t, o.id ≠ id) :
    Tidy { s with objects := s.objects.filter (·.id ≠ id) } := by
  refine ⟨fun o ho o' ho' => ?_,h.keyed,fun t ht o ho => ?_,h.managersNodup⟩
  · exact h.handles o (List.mem_of_mem_filter ho) o' (List.mem_of_mem_filter ho')
  · exact List.mem_filter.mpr ⟨h.alive t ht o ho,by simpa using hfree t ht o ho⟩

theorem Tidy.eraseManager (h : s.Tidy) (process : Process) (id : ℕ) :
    Tidy { s with process := process, managerSubscribers := erase s.managerSubscribers id } := by
  have hsub := erase_sublist s.managerSubscribers id
  refine h.of_same rfl (fun t ht => ?_) ((hsub.map Prod.fst).nodup h.managersNodup)
  rcases mem_tables.mp ht with ht | ⟨e,he,rfl⟩ | ht
  · exact mem_tables.mpr (Or.inl ht)
  · exact mem_tables.mpr (Or.inr (Or.inl ⟨e,hsub.subset he,rfl⟩))
  · exact mem_tables.mpr (Or.inr (Or.inr ht))

theorem Refines.eraseManager (h : s.Refines r) (hnodup : (keys s.managerSubscribers).Nodup)
    (process : Process) (id : ℕ) :
    Refines { s with process := process, managerSubscribers := erase s.managerSubscribers id }
      (r.change (some id) fun _ => []) := by
  refine ⟨h.globally,fun id' => ?_⟩
  by_cases hid : id' = id
  · subst hid
    simp [Registrations.change,find?_erase_self _ hnodup,values]
  · simp [Registrations.change,find?_erase_of_ne _ hid,hid,h.ofManager]

theorem keyed_getSubscribersToNotify (s : Apm) (ce : SubscriberInterface) (client : ℕ) :
    Keyed SubscriberObject.handle (s.getSubscribersToNotify ce client) := by
  have hadd : ∀ source target : Subscribers, Keyed SubscriberObject.handle target →
      Keyed SubscriberObject.handle (addSubscribersToNotify ce source target) := by
    intro source target htarget
    rw [addSubscribersToNotify_eq]
    exact htarget.insertAll _
  have hfold : ∀ f : Subscribers → ℕ → Subscribers,
      (∀ target id, Keyed SubscriberObject.handle target →
        Keyed SubscriberObject.handle (f target id)) →
      ∀ (managers : List ℕ) (target : Subscribers), Keyed SubscriberObject.handle target →
        Keyed SubscriberObject.handle (managers.foldl f target) := by
    intro f hf managers
    induction managers with
    | nil => exact fun target htarget => htarget
    | cons id managers ih => exact fun target htarget => ih _ (hf target id htarget)
  unfold getSubscribersToNotify
  refine hfold _ (fun target id htarget => ?_) _ _ ?_
  · split
    · split
      · exact hadd _ _ htarget
      · exact htarget
    · exact htarget
  split
  · exact hadd _ _ Keyed.nil
  · exact Keyed.nil

end

end Apm

namespace Monitored

/-- Every event object refers to a Manager that is alive and has the event's client. -/
def EventsHold (w : Monitored) : Prop :=
  ∀ e ∈ w.apm.events, ∃ m ∈ w.apm.process.objects, m.id = e.manager ∧ m.client = some e.client

structure Sound (pids : List ℕ) (w : Monitored) : Prop where
  process : w.apm.process.Sound pids
  ordered : w.apm.process.managers.Pairwise (· < ·)
  tidy : w.apm.Tidy
  refines : w.apm.Refines w.registrations
  numbered : w.apm.Numbered
  eventsHold : w.EventsHold
  eventAlive : ∀ d ∈ w.apm.dispatches, d.event ∈ w.apm.events

section
variable {w w' : Monitored} {pids : List ℕ} {s' : Apm} {Uri : Type}

theorem Sound.start {process : Process} (hprocess : process.Sound pids)
    (hmanagers : process.managers = []) : (Monitored.start process).Sound pids := by
  refine ⟨hprocess,by simp [Monitored.start,Apm.start,hmanagers],⟨?_,?_,?_,List.nodup_nil⟩,
    ⟨rfl,fun _ => rfl⟩,⟨?_,List.nodup_nil,?_,?_⟩,?_,?_⟩
  · exact fun o ho => absurd ho List.not_mem_nil
  · intro t ht
    rw [List.mem_singleton.mp ht]
    exact Keyed.nil
  · intro t ht o ho
    rw [List.mem_singleton.mp ht] at ho
    exact absurd ho List.not_mem_nil
  all_goals exact fun _ h => absurd h List.not_mem_nil

theorem Sound.of_goes (h : w.Sound pids) (hgoes : w.apm.Goes s')
    (hprocess : s'.process = w.apm.process) (hobjects : s'.objects = w.apm.objects)
    (hsubscribers : s'.subscribers = w.apm.subscribers)
    (hmanagers : s'.managerSubscribers = w.apm.managerSubscribers)
    (htables : ∀ d ∈ s'.dispatches, (∃ d' ∈ w.apm.dispatches, d'.subscribers = d.subscribers) ∨
      Keyed SubscriberObject.handle d.subscribers ∧ ∀ o ∈ values d.subscribers, o ∈ w.apm.objects)
    (hevents : ∀ e ∈ s'.events, e ∈ w.apm.events ∨
      ∃ m ∈ w.apm.process.objects, m.id = e.manager ∧ m.client = some e.client)
    (halive : ∀ d ∈ s'.dispatches, d.event ∈ s'.events) :
    Sound pids ⟨s',w.registrations⟩ := by
  refine ⟨hprocess ▸ h.process,hprocess ▸ h.ordered,?_,⟨?_,?_⟩,h.numbered.goes hgoes,?_,halive⟩
  · refine h.tidy.of_tables hobjects (fun t ht => ?_) (hmanagers ▸ h.tidy.managersNodup)
    rcases Apm.mem_tables.mp ht with ht | ht | ⟨d,hd,rfl⟩
    · exact Or.inl (Apm.mem_tables.mpr (Or.inl (hsubscribers ▸ ht)))
    · exact Or.inl (Apm.mem_tables.mpr (Or.inr (Or.inl (hmanagers ▸ ht))))
    · exact (htables d hd).imp_left fun hold => Apm.mem_tables.mpr (Or.inr (Or.inr hold))
  · rw [hsubscribers]
    exact h.refines.globally
  · rw [hmanagers]
    exact h.refines.ofManager
  · intro e he
    rw [hprocess]
    exact (hevents e he).elim (h.eventsHold e) id

theorem Sound.of_same (h : w.Sound pids) (hgoes : w.apm.Goes s')
    (hprocess : s'.process = w.apm.process) (hobjects : s'.objects = w.apm.objects)
    (hsubscribers : s'.subscribers = w.apm.subscribers)
    (hmanagers : s'.managerSubscribers = w.apm.managerSubscribers)
    (hdispatches : s'.dispatches = w.apm.dispatches) (hevents : s'.events = w.apm.events) :
    Sound pids ⟨s',w.registrations⟩ := by
  refine h.of_goes hgoes hprocess hobjects hsubscribers hmanagers ?_ ?_ ?_
  · exact fun d hd => Or.inl ⟨d,hdispatches ▸ hd,rfl⟩
  · exact fun e he => Or.inl (hevents ▸ he)
  · rw [hdispatches,hevents]
    exact h.eventAlive

theorem Sound.throw (h : w.Sound pids) (e : Exception) :
    Sound pids ⟨w.apm.throw e,w.registrations⟩ :=
  h.of_same (.same rfl le_rfl rfl rfl) rfl rfl rfl rfl rfl rfl

theorem Sound.put (h : w.Sound pids) (manager : Option ℕ) {t : Subscribers}
    {f : List SubscriberObject → List SubscriberObject}
    (hkeyed : Keyed SubscriberObject.handle t) (halive : ∀ o ∈ values t, o ∈ w.apm.objects)
    (ht : values t = f (values (w.apm.tableOf manager))) :
    Sound pids ⟨w.apm.put manager t,w.registrations.change manager f⟩ := by
  have htidy := h.tidy.put manager hkeyed halive
  have hrefines := h.refines.put manager ht
  cases manager with
  | none => exact ⟨h.process,h.ordered,htidy,hrefines,h.numbered.goes (.same rfl le_rfl rfl rfl),
      h.eventsHold,h.eventAlive⟩
  | some id => exact ⟨h.process,h.ordered,htidy,hrefines,
      h.numbered.goes (.same rfl le_rfl rfl rfl),h.eventsHold,h.eventAlive⟩

theorem Sound.addSubscriber (h : w.Sound pids) (manager : Option ℕ)
    (subscriber : Option SubscriberObject) (rejection : Exception)
    (halive : w.apm.areAlive manager subscriber = true) :
    Sound pids ⟨w.apm.addSubscriber manager subscriber rejection,w.registrations.afterUser
      (.addSubscriber manager subscriber rejection : UserAction Uri)⟩ := by
  rcases Apm.addSubscriber_cases h.refines manager subscriber rejection with
    ⟨hrejected,heq⟩ | ⟨o,rfl,ho,heq⟩
  · rw [heq,(Apm.afterUser_of_rejected hrejected).1]
    exact h.throw rejection
  · have hobject : o ∈ w.apm.objects := by
      simp only [Apm.areAlive,Bool.and_eq_true,Option.all_some,decide_eq_true_eq] at halive
      exact halive.2
    obtain ⟨hkeyed,hvalues⟩ := h.tidy.tableOf manager
    have hinj : ∀ b ∈ values (w.apm.tableOf manager), b.handle = o.handle → b = o :=
      fun b hb => h.tidy.handles b (hvalues b hb) o hobject
    have hnew := hkeyed.values_insertNew hinj
    rw [heq,Registrations.afterUser,if_pos ho]
    refine h.put manager (hkeyed.insertNew o) (fun b hb => ?_) hnew
    rw [hnew] at hb
    split at hb
    · exact hvalues b hb
    · rcases List.mem_append.mp hb with hb | hb
      · exact hvalues b hb
      · exact List.mem_singleton.mp hb ▸ hobject

theorem Sound.removeSubscriber (h : w.Sound pids) (manager : Option ℕ)
    (subscriber : Option SubscriberObject) (rejection : Exception)
    (halive : w.apm.areAlive manager subscriber = true) :
    Sound pids ⟨w.apm.removeSubscriber manager subscriber rejection,w.registrations.afterUser
      (.removeSubscriber manager subscriber rejection : UserAction Uri)⟩ := by
  rcases Apm.removeSubscriber_cases h.refines manager subscriber rejection with
    ⟨hrejected,heq⟩ | ⟨o,rfl,ho,heq⟩
  · rw [heq,(Apm.afterUser_of_rejected hrejected).2]
    exact h.throw rejection
  · have hobject : o ∈ w.apm.objects := by
      simp only [Apm.areAlive,Bool.and_eq_true,Option.all_some,decide_eq_true_eq] at halive
      exact halive.2
    obtain ⟨hkeyed,hvalues⟩ := h.tidy.tableOf manager
    have hinj : ∀ b ∈ values (w.apm.tableOf manager), b.handle = o.handle → b = o :=
      fun b hb => h.tidy.handles b (hvalues b hb) o hobject
    rw [Registrations.afterUser,if_pos ho]
    rcases heq with heq | ⟨hempty,heq⟩
    · have herase := hkeyed.values_erase hinj
      rw [heq]
      refine h.put manager (hkeyed.erase o.handle) (fun b hb => ?_) herase
      rw [herase] at hb
      exact hvalues b (List.mem_of_mem_erase hb)
    · rw [heq]
      refine { h with process := h.process, refines := ⟨?_,fun id => ?_⟩ }
      · cases manager with
        | none =>
          have hglobal := (Apm.tableOf_values h.refines).2
          rw [hempty] at hglobal
          simpa [Registrations.change,← hglobal,values] using h.refines.globally
        | some id => exact h.refines.globally
      · cases manager with
        | none => exact h.refines.ofManager id
        | some id' =>
          have hmanager := (Apm.tableOf_values h.refines).1 id'
          rw [hempty] at hmanager
          by_cases hid : id = id'
          · subst hid
            rw [h.refines.ofManager id]
            simp [Registrations.change,← hmanager,values]
          · simp [Registrations.change,hid,h.refines.ofManager]

theorem Sound.act (h : w.Sound pids) {action : Action Uri} (hact : w.apm.act action = some s') :
    Sound pids ⟨s',w.registrations.afterUser (.act action)⟩ := by
  rcases Apm.act_eq hact with ⟨id,process,rfl,hevents,hrun,rfl⟩ | ⟨process,hne,hrun,rfl⟩
  · obtain ⟨hmanagers,hobjects⟩ := Process.freeManager_run hrun
    refine ⟨h.process.run hrun,h.ordered.sublist hmanagers,h.tidy.eraseManager process id,
      h.refines.eraseManager h.tidy.managersNodup process id,
      h.numbered.goes (.same rfl le_rfl rfl rfl),fun e he => ?_,h.eventAlive⟩
    obtain ⟨m,hm,hid,hclient⟩ := h.eventsHold e he
    have hfree : m.id ≠ id := fun heq => hevents e he (hid.symm.trans heq)
    refine ⟨m,?_,hid,hclient⟩
    dsimp only
    rw [hobjects]
    exact List.mem_filter.mpr ⟨hm,by simpa using hfree⟩
  · have hkeeps := h.process.keepsManagers_run hne hrun
    have hafter : w.registrations.afterUser (.act action) = w.registrations := by
      cases action with
      | freeManager id => exact absurd rfl (hne id)
      | _ => rfl
    rw [hafter]
    refine ⟨h.process.run hrun,?_,⟨h.tidy.handles,h.tidy.keyed,h.tidy.alive,h.tidy.managersNodup⟩,
      ⟨h.refines.globally,h.refines.ofManager⟩,h.numbered.goes (.same rfl le_rfl rfl rfl),
      fun e he => ?_,h.eventAlive⟩
    · rcases hkeeps.managers with hsub | heq
      · exact h.ordered.sublist hsub
      · show process.managers.Pairwise (· < ·)
        rw [heq]
        refine List.pairwise_append.mpr ⟨h.ordered,List.pairwise_singleton _ _,?_⟩
        intro id hid id' hid'
        rw [List.mem_singleton.mp hid']
        exact h.process.managersMade id hid
    · obtain ⟨m,hm,hrest⟩ := h.eventsHold e he
      exact ⟨m,hkeeps.objects hm,hrest⟩

theorem mem_of_holdsClient {s : Apm} {client id : ℕ} (h : s.holdsClient client id = true) :
    ∃ m ∈ s.process.objects, m.id = id ∧ m.client = some client := by
  obtain ⟨m,hm,hclient⟩ := (Option.any_eq_true _ _).mp h
  exact ⟨m,List.mem_of_find?_eq_some hm,by simpa using List.find?_some hm,by simpa using hclient⟩

theorem Sound.notify (h : w.Sound pids) (kind : CommandEvent) (client : ℕ) :
    Sound pids ⟨w.apm.notify kind client,w.registrations⟩ := by
  have hgoes := Apm.goes_notify w.apm kind client
  have hvalues := h.tidy.values_getSubscribersToNotify h.refines client
  unfold Apm.notify at hgoes ⊢
  dsimp only at hgoes ⊢
  split
  · rename_i hempty
    rw [if_pos hempty] at hgoes
    exact h.of_same hgoes rfl rfl rfl rfl rfl rfl
  · rename_i hempty
    rw [if_neg hempty] at hgoes
    split
    · rename_i hnone
      simp only [hnone] at hgoes
      exact h.of_same hgoes rfl rfl rfl rfl rfl rfl
    · rename_i manager hmanager
      simp only [hmanager] at hgoes
      refine h.of_goes hgoes rfl rfl rfl rfl (fun d hd => ?_) (fun e he => ?_) (fun d hd => ?_)
      · rcases List.mem_cons.mp hd with rfl | hd
        · refine Or.inr ⟨Apm.keyed_getSubscribersToNotify _ _ _,fun o ho => ?_⟩
          exact h.tidy.expected_alive h.refines client o (hvalues ▸ ho)
        · exact Or.inl ⟨d,hd,rfl⟩
      · rcases List.mem_append.mp he with he | he
        · exact Or.inl he
        · rw [List.mem_singleton.mp he]
          exact Or.inr (mem_of_holdsClient (List.find?_some hmanager))
      · rcases List.mem_cons.mp hd with rfl | hd
        · exact List.mem_append_right _ (List.mem_singleton.mpr rfl)
        · exact List.mem_append_left _ (h.eventAlive d hd)

theorem Sound.next (h : w.Sound pids) {d : Dispatch} {ds : List Dispatch}
    (hdispatches : w.apm.dispatches = d::ds) : Sound pids ⟨w.apm.next d ds,w.registrations⟩ := by
  have hgoes := Apm.goes_next hdispatches
  have hrest : ∀ d' ∈ ds, d' ∈ w.apm.dispatches := fun d' hd' =>
    hdispatches ▸ List.mem_cons_of_mem _ hd'
  have hover : ∀ ended, w.apm.Goes { w.apm with dispatches := ds, ended := ended } →
      Sound pids ⟨{ w.apm with dispatches := ds, ended := ended },w.registrations⟩ :=
    fun ended hgoes => h.of_goes hgoes rfl rfl rfl rfl
      (fun d' hd' => Or.inl ⟨d',hrest d' hd',rfl⟩) (fun e he => Or.inl he)
      fun d' hd' => h.eventAlive d' (hrest d' hd')
  unfold Apm.next at hgoes ⊢
  split
  · rename_i hremaining
    simp only [hremaining] at hgoes
    exact hover _ hgoes
  · rename_i o rest hremaining
    simp only [hremaining] at hgoes
    split
    · rename_i hne
      rw [if_pos hne] at hgoes
      exact hover _ hgoes
    · rename_i hnil
      rw [if_neg hnil] at hgoes
      refine h.of_goes hgoes rfl rfl rfl rfl (fun d' hd' => Or.inl ?_) (fun e he => Or.inl he)
        fun d' hd' => ?_
      · rcases List.mem_cons.mp hd' with rfl | hd'
        · exact ⟨d,hdispatches ▸ List.mem_cons_self,rfl⟩
        · exact ⟨d',hrest d' hd',rfl⟩
      · rcases List.mem_cons.mp hd' with rfl | hd'
        · exact h.eventAlive d (hdispatches ▸ List.mem_cons_self)
        · exact h.eventAlive d' (hrest d' hd')

theorem Sound.return (h : w.Sound pids) {d : Dispatch} {ds : List Dispatch}
    (hdispatches : w.apm.dispatches = d::ds) : Sound pids
      ⟨{ w.apm with dispatches := { d with running := false }::ds },w.registrations⟩ := by
  refine h.of_goes (.returned d ds hdispatches rfl rfl rfl rfl) rfl rfl rfl rfl
    (fun d' hd' => Or.inl ?_) (fun e he => Or.inl he) fun d' hd' => ?_
  · rcases List.mem_cons.mp hd' with rfl | hd'
    · exact ⟨d,hdispatches ▸ List.mem_cons_self,rfl⟩
    · exact ⟨d',hdispatches ▸ List.mem_cons_of_mem _ hd',rfl⟩
  · rcases List.mem_cons.mp hd' with rfl | hd'
    · exact h.eventAlive d (hdispatches ▸ List.mem_cons_self)
    · exact h.eventAlive d' (hdispatches ▸ List.mem_cons_of_mem _ hd')

theorem Sound.runUser (h : w.Sound pids) {action : UserAction Uri}
    (hrun : w.apm.runUser action = some s') :
    Sound pids ⟨s',w.registrations.afterUser action⟩ := by
  have hgoes := Apm.goes_runUser hrun
  cases action with
  | create handle objClass =>
    obtain ⟨hnew,hrun⟩ := Option.ite_none_left_eq_some.mp hrun
    obtain rfl := Option.some.inj hrun
    have hnew : ∀ o ∈ w.apm.objects, o.handle ≠ handle := by simpa using hnew
    exact ⟨h.process,h.ordered,h.tidy.create objClass hnew,⟨h.refines.globally,h.refines.ofManager⟩,
      h.numbered.goes hgoes,h.eventsHold,h.eventAlive⟩
  | free id =>
    obtain ⟨hfree,hrun⟩ := Option.ite_none_left_eq_some.mp hrun
    obtain rfl := Option.some.inj hrun
    have hfree : ∀ t ∈ w.apm.tables, ∀ o ∈ values t, o.id ≠ id := by simpa using hfree
    exact ⟨h.process,h.ordered,h.tidy.free hfree,⟨h.refines.globally,h.refines.ofManager⟩,
      h.numbered.goes hgoes,h.eventsHold,h.eventAlive⟩
  | addSubscriber manager subscriber rejection =>
    obtain ⟨halive,hrun⟩ := Option.ite_none_right_eq_some.mp hrun
    exact Option.some.inj hrun ▸ h.addSubscriber manager subscriber rejection halive
  | removeSubscriber manager subscriber rejection =>
    obtain ⟨halive,hrun⟩ := Option.ite_none_right_eq_some.mp hrun
    exact Option.some.inj hrun ▸ h.removeSubscriber manager subscriber rejection halive
  | act action => exact h.act hrun
  | throw e => exact Option.some.inj hrun ▸ h.throw e
  | «catch» =>
    obtain rfl := Option.some.inj hrun
    exact h.of_same hgoes rfl rfl rfl rfl rfl rfl
  | freeEvent id =>
    obtain ⟨hfree,hrun⟩ := Option.ite_none_left_eq_some.mp hrun
    obtain rfl := Option.some.inj hrun
    have hfree : ∀ d ∈ w.apm.dispatches, d.event.id ≠ id := by simpa using hfree
    refine h.of_goes hgoes rfl rfl rfl rfl (fun d hd => Or.inl ⟨d,hd,rfl⟩)
      (fun e he => Or.inl (List.mem_of_mem_filter he)) fun d hd => ?_
    exact List.mem_filter.mpr ⟨h.eventAlive d hd,by simpa using hfree d hd⟩
  | notify kind client => exact Option.some.inj hrun ▸ h.notify kind client

theorem Sound.step (h : w.Sound pids) {action : ApmAction Uri} (hstep : w.Step action w') :
    w'.Sound pids := by
  obtain ⟨hstep,hregistrations⟩ := hstep
  obtain ⟨s',r'⟩ := w'
  dsimp only at hstep hregistrations
  subst hregistrations
  rcases Apm.step_cases hstep with ⟨a,rfl,hrun⟩ | ⟨rfl,d,ds,hdispatches,rfl⟩ |
    ⟨rfl,d,ds,hdispatches,rfl⟩
  · exact h.runUser hrun
  · exact h.return hdispatches
  · exact h.next hdispatches

def Holds (w : Monitored) (client : ℕ) : Prop :=
  ∃ id ∈ w.apm.process.managers, w.apm.holdsClient client id = true

theorem copyManagerForClient_isSome (w : Monitored) (client : ℕ) :
    (w.apm.copyManagerForClient client).isSome = true ↔ w.Holds client := by
  rw [Apm.copyManagerForClient,List.find?_isSome]
  rfl

theorem Sound.called_notified (h : w.Sound pids) : w.apm.called w.apm.notified = [] := by
  rw [Apm.called,List.map_eq_nil_iff,List.filter_eq_nil_iff]
  intro c hc hid
  exact (h.numbered.calls c hc).1.ne (by simpa using hid)

theorem Sound.follows_notify (h : w.Sound pids) (kind : CommandEvent) {client : ℕ}
    (hholds : w.Holds client) :
    (w.apm.notify kind client).Follows w.apm.notified (w.expected client) := by
  have hvalues := h.tidy.values_getSubscribersToNotify h.refines client
  have hcalled := h.called_notified
  have hnone : ∀ d ∈ w.apm.dispatches, d.event.id ≠ w.apm.notified :=
    fun d hd => (h.numbered.dispatches d hd).ne
  obtain ⟨manager,hmanager⟩ :=
    Option.isSome_iff_exists.mp ((copyManagerForClient_isSome w client).mpr hholds)
  unfold Apm.notify
  dsimp only
  split
  · rename_i hempty
    refine Or.inr ⟨hnone,?_⟩
    have hexpected : w.expected client = [] := by
      rw [← hvalues,List.length_eq_zero_iff.mp hempty]
      rfl
    rw [hexpected]
    exact ⟨⟨[],congrArg (· ++ []) hcalled⟩,Or.inl hcalled⟩
  · split
    · rename_i hnone'
      cases hmanager.symm.trans hnone'
    · refine Or.inl ⟨_,List.mem_cons_self,rfl,?_⟩
      rw [← hvalues]
      exact congrArg (· ++ _) hcalled

/-- Where no Manager holds the client, the event is not dispatched. -/
theorem Sound.notify_of_not_holds (h : w.Sound pids) (kind : CommandEvent) {client : ℕ}
    (hholds : ¬ w.Holds client) :
    (w.apm.notify kind client).Follows w.apm.notified [] ∧
      (w.expected client ≠ [] → (w.apm.notify kind client).exceptions = throwException
        .unexpectedValue "Found no Manager for client in APM event context" []
        w.apm.exceptions) := by
  have hvalues := h.tidy.values_getSubscribersToNotify h.refines client
  have hcalled := h.called_notified
  have hnone : w.apm.copyManagerForClient client = none := by
    rw [← copyManagerForClient_isSome] at hholds
    simpa using hholds
  have hoff : ∀ d ∈ w.apm.dispatches, d.event.id ≠ w.apm.notified :=
    fun d hd => (h.numbered.dispatches d hd).ne
  have hfollows : ∀ s : Apm, s.dispatches = w.apm.dispatches → s.calls = w.apm.calls →
      s.Follows w.apm.notified [] := fun s hdispatches hcalls => by
    have hnil : s.called w.apm.notified = [] := (Apm.called_of_calls hcalls _).trans hcalled
    exact Or.inr ⟨hdispatches ▸ hoff,hnil ▸ List.prefix_rfl,Or.inl hnil⟩
  unfold Apm.notify
  dsimp only
  split
  · rename_i hempty
    refine ⟨hfollows _ rfl rfl,fun hne => absurd ?_ hne⟩
    rw [← hvalues,List.length_eq_zero_iff.mp hempty]
    rfl
  · split
    · exact ⟨hfollows _ rfl rfl,fun _ => rfl⟩
    · rename_i manager hmanager
      cases hnone.symm.trans hmanager

/-- How the event of a client was dispatched by the time of `w'`, if it came in `w`. -/
structure NotifiesOnce (Uri : Type) (w : Monitored) (client : ℕ) (w' : Monitored) : Prop where
  /-- the subscribers called for the event, in order -/
  called : w'.apm.called w.apm.notified <+: w.expected client
  ended : (∀ d ∈ w'.apm.dispatches, d.event.id ≠ w.apm.notified) →
    w'.apm.called w.apm.notified = w.expected client ∨
      ∃ eg, (w.apm.notified,eg) ∈ w'.apm.ended ∧ eg ≠ []
  /-- the loop calls the next of them unless an exception is pending -/
  goesOn : ∀ d ds, w'.apm.dispatches = d::ds → d.event.id = w.apm.notified → d.running = false →
    w'.apm.exceptions = [] → ∃ w'', w'.Step (.next : ApmAction Uri) w'' ∧
      w''.apm.called w.apm.notified =
        (w.expected client).take ((w'.apm.called w.apm.notified).length + 1)
  /-- all of them are called if user code does nothing more -/
  completes : w'.apm.exceptions = [] → (∃ d ∈ w'.apm.dispatches, d.event.id = w.apm.notified) →
    ∃ w'', Reaches (@Monitored.Step Uri) (fun _ action => action.Idle) w' w'' ∧
      w''.apm.called w.apm.notified = w.expected client
  nothingPending : ∀ c ∈ w'.apm.calls, c.exceptions = []
  once : (w.expected client).Nodup
  mem_expected : ∀ o, o ∈ w.expected client ↔ o.instanceOf .commandSubscriber = true ∧
    (o ∈ w.registrations.globally ∨ ∃ id ∈ w.apm.process.managers,
      w.apm.holdsClient client id = true ∧ o ∈ w.registrations.ofManager id)
  managersInOrder : w.apm.process.managers.Pairwise (· < ·)
  eventsHold : w'.EventsHold

/-- The event of a client that no Manager holds: nobody is called, and if anybody would be, the
driver throws. -/
structure NotifiesNobody (w : Monitored) (client : ℕ) (w₁ w' : Monitored) : Prop where
  called : w'.apm.called w.apm.notified = []
  thrown : w.expected client ≠ [] → w₁.apm.exceptions = throwException .unexpectedValue
    "Found no Manager for client in APM event context" [] w.apm.exceptions

theorem mem_expected (w : Monitored) (client : ℕ) (o : SubscriberObject) :
    o ∈ w.expected client ↔ o.instanceOf .commandSubscriber = true ∧
      (o ∈ w.registrations.globally ∨ ∃ id ∈ w.apm.process.managers,
        w.apm.holdsClient client id = true ∧ o ∈ w.registrations.ofManager id) := by
  simp only [expected,List.mem_eraseDups,List.mem_filter,List.mem_append,List.mem_flatMap,
    and_assoc]
  exact and_comm

/-- What no user code does leaves the registrations as they are. -/
theorem reaches_of_apm {s s' : Apm}
    (h : Reaches (@Apm.Step Uri) (fun _ action => action.Idle) s s') (r : Registrations) :
    Reaches (@Monitored.Step Uri) (fun _ action => action.Idle) ⟨s,r⟩ ⟨s',r⟩ := by
  induction h with
  | refl => exact Reaches.refl
  | tail _ hstep ih =>
    obtain ⟨action,hidle,hstep⟩ := hstep
    refine ih.tail action hidle ⟨hstep,?_⟩
    cases action with
    | user action => exact hidle.elim
    | _ => rfl

/-- Once its event has come, a dispatch calls whom it should. -/
theorem notifiesOnce_of_follows (hsound : w.Sound pids) (hsound' : w'.Sound pids) {client : ℕ}
    (h : w'.apm.Follows w.apm.notified (w.expected client)) : w.NotifiesOnce Uri client w' where
  called := by
    rcases h with ⟨d,-,-,hexpected⟩ | ⟨-,hbegins,-⟩
    · exact ⟨d.remaining,hexpected⟩
    · exact hbegins
  ended hoff := by
    rcases h with ⟨d,hd,hid,-⟩ | ⟨-,-,hend⟩
    · exact absurd hid (hoff d hd)
    · exact hend
  goesOn d ds hdispatches hid hrunning hnil := by
    rw [← hid] at h ⊢
    have hexpected := h.expected_eq hsound'.numbered hdispatches
    refine ⟨⟨w'.apm.next d ds,w'.registrations⟩,⟨Apm.step_next hdispatches hrunning,rfl⟩,?_⟩
    rw [Apm.called_next d ds hnil,if_pos rfl,← hexpected,List.take_length_add_append]
  completes hnil hon := by
    obtain ⟨s',hreaches,hcalled,-⟩ := h.reaches_called Uri hsound'.numbered hnil hon
    exact ⟨⟨s',w'.registrations⟩,reaches_of_apm hreaches w'.registrations,hcalled⟩
  nothingPending c hc := (hsound'.numbered.calls c hc).2
  once := nodup_eraseDups _
  mem_expected := mem_expected w client
  managersInOrder := hsound.ordered
  eventsHold := hsound'.eventsHold

/-- What a dispatch follows it follows in every run. -/
theorem Sound.follows_of_reaches (h : w.Sound pids) {expected : List SubscriberObject} {id : ℕ}
    (hid : id < w.apm.notified) (hfollows : w.apm.Follows id expected)
    (hreaches : Reaches (@Monitored.Step Uri) always w w') :
    w'.Sound pids ∧ w'.apm.Follows id expected := by
  have hinvariant := hreaches.invariant (I:=fun v => v.Sound pids ∧
      id < v.apm.notified ∧ v.apm.Follows id expected)
    (fun v action v' hv _ hstep => by
      have hgoes := Apm.goes_of_step hstep.1
      exact ⟨hv.1.step hstep,hv.2.1.trans_le hgoes.notified_le,
        hv.2.2.goes hv.1.numbered hv.2.1 hgoes⟩) ⟨h,hid,hfollows⟩
  exact ⟨hinvariant.1,hinvariant.2.2⟩

end

/-- An event that comes in any run of additions, removals, Managers and other events is notified
to each registered subscriber once, until an exception is pending, if a Manager holds its client. -/
theorem notifiesOnce_of_reaches {Uri : Type} {process : Process} {pids : List ℕ}
    {w w₁ w₂ : Monitored} (hprocess : process.Sound pids) (hmanagers : process.managers = [])
    (h : Reaches (@Monitored.Step Uri) always (start process) w) {kind : CommandEvent}
    {client : ℕ} (hevent : w.Step (.user (.notify kind client) : ApmAction Uri) w₁)
    (h' : Reaches (@Monitored.Step Uri) always w₁ w₂) :
    (w.Holds client → w.NotifiesOnce Uri client w₂) ∧
      (¬ w.Holds client → w.NotifiesNobody client w₁ w₂) := by
  have hsound : w.Sound pids := h.invariant (I:=Monitored.Sound pids)
    (fun _ _ _ hv _ hstep => hv.step hstep) (Sound.start hprocess hmanagers)
  have hsound₁ := hsound.step hevent
  have hnotify : w.apm.notify kind client = w₁.apm :=
    Option.some.inj (Option.ite_none_right_eq_some.mp hevent.1).2
  have hnotified : w.apm.notified < w₁.apm.notified := by
    rw [← hnotify]
    unfold Apm.notify
    dsimp only
    split
    · exact Nat.lt_succ_self _
    · split <;> exact Nat.lt_succ_self _
  refine ⟨fun hholds => ?_,fun hholds => ?_⟩
  · have hfollows := hsound.follows_notify kind hholds
    rw [hnotify] at hfollows
    obtain ⟨hsound₂,hfollows₂⟩ := hsound₁.follows_of_reaches hnotified hfollows h'
    exact notifiesOnce_of_follows hsound hsound₂ hfollows₂
  · obtain ⟨hfollows,hthrown⟩ := hsound.notify_of_not_holds kind hholds
    rw [hnotify] at hfollows hthrown
    obtain ⟨-,hfollows₂⟩ := hsound₁.follows_of_reaches hnotified hfollows h'
    refine ⟨?_,hthrown⟩
    rcases hfollows₂ with ⟨d,-,-,hnil⟩ | ⟨-,hbegins,-⟩
    · exact (List.append_eq_nil_iff.mp hnil).1
    · exact List.prefix_nil.mp hbegins

/-- A subscriber that is registered globally, and with the Manager whose client has the event: it
is called once. -/
theorem notifiesOnce_of_reaches_vault : ∃ w w' : Monitored,
    w.expected 0 = [⟨0,5,.commandSubscriber⟩] ∧
      w'.apm.called w.apm.notified = [⟨0,5,.commandSubscriber⟩] ∧
      w'.apm.dispatches.length = 0 ∧ w.NotifiesOnce PlainUri 0 w' := by
  let o : SubscriberObject := ⟨0,5,.commandSubscriber⟩
  let w₁ : Monitored := ⟨{ Apm.start (Process.start 1) with objects := [o], made := 1 },.start⟩
  let w₂ : Monitored := ⟨{ w₁.apm with
    process := (Outside.plain.construct (Process.start 1) .vault).1 },.start⟩
  let add (manager : Option ℕ) : UserAction PlainUri :=
    .addSubscriber manager (some o) (.userland 0)
  let w₃ : Monitored := ⟨w₂.apm.addSubscriber none (some o) (.userland 0),
    Registrations.start.afterUser (add none)⟩
  let w₄ : Monitored := ⟨w₃.apm.addSubscriber (some 0) (some o) (.userland 0),
    w₃.registrations.afterUser (add (some 0))⟩
  let w₅ : Monitored := ⟨w₄.apm.notify .started 0,w₄.registrations⟩
  have hcreate : (start (Process.start 1)).Step
      (.user (.create 5 .commandSubscriber) : ApmAction PlainUri) w₁ := ⟨rfl,rfl⟩
  have hconstruct : w₁.Step (.user (.act (.construct Outside.plain .vault))) w₂ := ⟨rfl,rfl⟩
  have hglobal : w₂.Step (.user (add none)) w₃ := ⟨rfl,rfl⟩
  have hfound : w₃.apm.areAlive (some 0) (some o) = true := by decide +kernel
  have hrun : w₃.apm.runUser (add (some 0)) = some w₄.apm := by
    rw [Apm.runUser,if_pos hfound]
  have hmanager : w₃.Step (.user (add (some 0))) w₄ := ⟨hrun,rfl⟩
  have hevent : w₄.Step (.user (.notify .started 0) : ApmAction PlainUri) w₅ := ⟨rfl,rfl⟩
  have hreaches : Reaches (@Monitored.Step PlainUri) always (start (Process.start 1)) w₄ :=
    (((Reaches.refl.tail _ trivial hcreate).tail _ trivial hconstruct).tail _ trivial
      hglobal).tail _ trivial hmanager
  have hholds : w₄.Holds 0 := ⟨0,by decide +kernel,by decide +kernel⟩
  obtain ⟨d,hd⟩ : ∃ d, w₅.apm.dispatches = [d] := List.length_eq_one_iff.mp (by decide +kernel)
  have hfirst : ∀ d ∈ w₅.apm.dispatches, d.event.id = w₄.apm.notified ∧ d.remaining = [o] := by
    decide +kernel
  obtain ⟨hid,hremaining⟩ := hfirst d (hd ▸ List.mem_singleton.mpr rfl)
  have hbefore : w₅.apm.called w₄.apm.notified = [] := by decide +kernel
  obtain ⟨s₆,hidle,hdispatches,-,hcalled⟩ := Apm.reaches_finish PlainUri hd (by decide +kernel)
  have hafter := reaches_of_apm hidle w₅.registrations
  refine ⟨w₄,⟨s₆,w₅.registrations⟩,by decide +kernel,?_,congrArg List.length hdispatches,?_⟩
  · rw [hcalled,hbefore,if_pos hid,hremaining]
    rfl
  · exact (notifiesOnce_of_reaches (Process.Sound.start (by decide)) rfl hreaches hevent
      (hafter.mono fun _ _ _ => trivial)).1 hholds

/-- The persistent client of a Manager that is gone: the driver throws instead of calling the
global subscriber. -/
theorem not_notifiesOnce : ¬ ∀ {process : Process} {pids : List ℕ} {w w₁ w₂ : Monitored},
    process.Sound pids → process.managers = [] →
    Reaches (@Monitored.Step PlainUri) always (start process) w → ∀ {kind : CommandEvent}
      {client : ℕ}, w.Step (.user (.notify kind client) : ApmAction PlainUri) w₁ →
        Reaches (@Monitored.Step PlainUri) always w₁ w₂ → w.NotifiesOnce PlainUri client w₂ := by
  intro h
  let o : SubscriberObject := ⟨0,5,.commandSubscriber⟩
  let w₁ : Monitored := ⟨{ Apm.start (Process.start 1) with objects := [o], made := 1 },.start⟩
  let w₂ : Monitored := ⟨{ w₁.apm with
    process := (Outside.plain.construct (Process.start 1) .vault).1 },.start⟩
  let add : UserAction PlainUri := .addSubscriber none (some o) (.userland 0)
  let w₃ : Monitored := ⟨w₂.apm.addSubscriber none (some o) (.userland 0),
    Registrations.start.afterUser add⟩
  have hcreate : (start (Process.start 1)).Step
      (.user (.create 5 .commandSubscriber) : ApmAction PlainUri) w₁ := ⟨rfl,rfl⟩
  have hconstruct : w₁.Step (.user (.act (.construct Outside.plain .vault))) w₂ := ⟨rfl,rfl⟩
  have hglobal : w₂.Step (.user add) w₃ := ⟨rfl,rfl⟩
  let free : UserAction PlainUri := .act (.freeManager 0)
  let r : Registrations := w₃.registrations.afterUser free
  obtain ⟨s₄,hfreed⟩ : ∃ s, w₃.apm.runUser free = some s :=
    Option.isSome_iff_exists.mp (by decide +kernel)
  have hfree : w₃.Step (.user free) ⟨s₄,r⟩ := ⟨hfreed,rfl⟩
  have hfacts : ∀ s ∈ w₃.apm.runUser free, s.inUserCode = true ∧
      (s.notify .started 0).dispatches.length = 0 ∧ (s.notify .started 0).ended.length = 0 ∧
      (s.notify .started 0).called s.notified ≠ (⟨s,r⟩ : Monitored).expected 0 := by
    decide +kernel
  obtain ⟨hcode,hdispatches,hended,hcalled⟩ := hfacts s₄ hfreed
  have hevent : (⟨s₄,r⟩ : Monitored).Step (.user (.notify .started 0) : ApmAction PlainUri)
      ⟨s₄.notify .started 0,r⟩ := ⟨if_pos hcode,rfl⟩
  have hreaches : Reaches (@Monitored.Step PlainUri) always (start (Process.start 1)) ⟨s₄,r⟩ :=
    (((Reaches.refl.tail _ trivial hcreate).tail _ trivial hconstruct).tail _ trivial
      hglobal).tail _ trivial hfree
  have honce := h (Process.Sound.start (by decide)) rfl hreaches hevent Reaches.refl
  have hoff : ∀ d ∈ (s₄.notify .started 0).dispatches, d.event.id ≠ s₄.notified := by
    simp [List.length_eq_zero_iff.mp hdispatches]
  rcases honce.ended hoff with heq | ⟨eg,heg,-⟩
  · exact hcalled heq
  · simp [List.length_eq_zero_iff.mp hended] at heg

end Monitored

end Phongo
