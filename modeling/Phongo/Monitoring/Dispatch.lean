import Mathlib.Tactic.Common
import Phongo.Lib.Run
import Phongo.Monitoring.Registrations

/-! How the dispatch of an event goes on while other events come and go, and what is registered
changes: it works through the HashTable it began with. -/
namespace Phongo
open OrderedTable Transition

namespace Apm

/-- What a step does to the dispatches and their log. -/
inductive Goes (s s' : Apm) : Prop
  | same (hdispatches : s'.dispatches = s.dispatches) (hnotified : s.notified ≤ s'.notified)
      (hcalls : s'.calls = s.calls) (hended : s'.ended = s.ended)
  | began (d : Dispatch) (hid : d.event.id = s.notified)
      (hdispatches : s'.dispatches = d::s.dispatches) (hnotified : s'.notified = s.notified + 1)
      (hcalls : s'.calls = s.calls) (hended : s'.ended = s.ended)
  | finished (d : Dispatch) (hover : d.remaining = [] ∨ s.exceptions ≠ [])
      (hdispatches : s.dispatches = d::s'.dispatches) (hnotified : s'.notified = s.notified)
      (hcalls : s'.calls = s.calls) (hended : s'.ended = s.ended ++ [(d.event.id,s.exceptions)])
  | called (d : Dispatch) (ds : List Dispatch) (o : SubscriberObject)
      (rest : List SubscriberObject) (hremaining : d.remaining = o::rest)
      (hdispatches : s.dispatches = d::ds)
      (hdispatches' : s'.dispatches = { d with remaining := rest, running := true }::ds)
      (hnotified : s'.notified = s.notified) (hnil : s.exceptions = [])
      (hcalls : s'.calls = s.calls ++ [⟨d.event,o,s.exceptions⟩]) (hended : s'.ended = s.ended)
  | returned (d : Dispatch) (ds : List Dispatch) (hdispatches : s.dispatches = d::ds)
      (hdispatches' : s'.dispatches = { d with running := false }::ds)
      (hnotified : s'.notified = s.notified) (hcalls : s'.calls = s.calls)
      (hended : s'.ended = s.ended)

section
variable {s s' : Apm} {Uri : Type}

theorem goes_rfl (hdispatches : s'.dispatches = s.dispatches) (hnotified : s'.notified = s.notified)
    (hcalls : s'.calls = s.calls) (hended : s'.ended = s.ended) : s.Goes s' :=
  .same hdispatches hnotified.ge hcalls hended

theorem goes_withSubscriber (subscriber : Option SubscriberObject) (rejection : Exception)
    (change : Except Exception Subscribers) {put : Subscribers → Apm}
    (hput : ∀ t, s.Goes (put t)) : s.Goes (s.withSubscriber subscriber rejection change put) := by
  unfold withSubscriber
  split
  · split
    · exact hput _
    · exact goes_rfl rfl rfl rfl rfl
  · exact goes_rfl rfl rfl rfl rfl

theorem goes_addSubscriber (s : Apm) (manager : Option ℕ) (subscriber : Option SubscriberObject)
    (rejection : Exception) : s.Goes (s.addSubscriber manager subscriber rejection) := by
  cases manager with
  | none => exact goes_withSubscriber _ _ _ fun t => goes_rfl rfl rfl rfl rfl
  | some id => exact goes_withSubscriber _ _ _ fun t => goes_rfl rfl rfl rfl rfl

theorem goes_removeSubscriber (s : Apm) (manager : Option ℕ)
    (subscriber : Option SubscriberObject) (rejection : Exception) :
    s.Goes (s.removeSubscriber manager subscriber rejection) := by
  cases manager with
  | none => exact goes_withSubscriber _ _ _ fun t => goes_rfl rfl rfl rfl rfl
  | some id =>
    unfold removeSubscriber
    dsimp only
    split
    · split <;> exact goes_rfl rfl rfl rfl rfl
    · exact goes_withSubscriber _ _ _ fun t => goes_rfl rfl rfl rfl rfl

theorem goes_notify (s : Apm) (kind : CommandEvent) (client : ℕ) :
    s.Goes (s.notify kind client) := by
  unfold notify
  dsimp only
  split
  · exact .same rfl (Nat.le_succ _) rfl rfl
  · split
    · exact .same rfl (Nat.le_succ _) rfl rfl
    · exact .began _ rfl rfl rfl rfl rfl

theorem goes_next {d : Dispatch} {ds : List Dispatch} (hdispatches : s.dispatches = d::ds) :
    s.Goes (s.next d ds) := by
  unfold next
  split
  · rename_i hremaining
    exact .finished d (Or.inl hremaining) hdispatches rfl rfl rfl
  · rename_i o rest hremaining
    split
    · rename_i hne
      exact .finished d (Or.inr hne) hdispatches rfl rfl rfl
    · rename_i hnil
      exact .called d ds o rest hremaining hdispatches rfl rfl (not_not.mp hnil) rfl rfl

theorem act_eq {action : Action Uri} (hact : s.act action = some s') :
    (∃ id process, action = .freeManager id ∧ (∀ e ∈ s.events, e.manager ≠ id) ∧
      s.process.run (.freeManager id : Action Uri) = some process ∧
      s' = { s with process := process, managerSubscribers := erase s.managerSubscribers id }) ∨
    (∃ process, (∀ id, action ≠ .freeManager id) ∧ s.process.run action = some process ∧
      s' = { s with process := process }) := by
  cases action with
  | freeManager id =>
    rw [act] at hact
    split at hact
    · cases hact
    · rename_i hevents
      obtain ⟨process,hrun,rfl⟩ := Option.map_eq_some_iff.mp hact
      exact Or.inl ⟨id,process,rfl,fun e he hm => hevents (by simpa using ⟨e,he,hm⟩),hrun,rfl⟩
  | _ =>
    simp only [act,Option.map_eq_some_iff] at hact
    obtain ⟨process,hrun,rfl⟩ := hact
    exact Or.inr ⟨process,fun id => by simp,hrun,rfl⟩

theorem goes_runUser {action : UserAction Uri} (h : s.runUser action = some s') : s.Goes s' := by
  cases action with
  | create handle objClass =>
    obtain ⟨-,h⟩ := Option.ite_none_left_eq_some.mp h
    exact Option.some.inj h ▸ goes_rfl rfl rfl rfl rfl
  | free id =>
    obtain ⟨-,h⟩ := Option.ite_none_left_eq_some.mp h
    exact Option.some.inj h ▸ goes_rfl rfl rfl rfl rfl
  | addSubscriber manager subscriber rejection =>
    obtain ⟨-,h⟩ := Option.ite_none_right_eq_some.mp h
    exact Option.some.inj h ▸ goes_addSubscriber s manager subscriber rejection
  | removeSubscriber manager subscriber rejection =>
    obtain ⟨-,h⟩ := Option.ite_none_right_eq_some.mp h
    exact Option.some.inj h ▸ goes_removeSubscriber s manager subscriber rejection
  | act action =>
    rcases act_eq h with ⟨id,process,-,-,-,rfl⟩ | ⟨process,-,-,rfl⟩
    · exact goes_rfl rfl rfl rfl rfl
    · exact goes_rfl rfl rfl rfl rfl
  | throw e => exact Option.some.inj h ▸ goes_rfl rfl rfl rfl rfl
  | «catch» => exact Option.some.inj h ▸ goes_rfl rfl rfl rfl rfl
  | freeEvent id =>
    obtain ⟨-,h⟩ := Option.ite_none_left_eq_some.mp h
    exact Option.some.inj h ▸ goes_rfl rfl rfl rfl rfl
  | notify kind client => exact Option.some.inj h ▸ goes_notify s kind client

/-- A step is one of user code, a return, or one of the loop. -/
theorem step_cases {action : ApmAction Uri} (h : s.Step action s') :
    (∃ a, action = .user a ∧ s.runUser a = some s') ∨
    (action = .return ∧ ∃ d ds, s.dispatches = d::ds ∧
      s' = { s with dispatches := { d with running := false }::ds }) ∨
    (action = .next ∧ ∃ d ds, s.dispatches = d::ds ∧ s' = s.next d ds) := by
  unfold Step at h
  cases action with
  | user a => exact Or.inl ⟨a,rfl,(Option.ite_none_right_eq_some.mp h).2⟩
  | «return» =>
    rw [run] at h
    split at h
    · rename_i d ds hdispatches
      obtain ⟨-,h⟩ := Option.ite_none_right_eq_some.mp h
      exact Or.inr (Or.inl ⟨rfl,d,ds,hdispatches,(Option.some.inj h).symm⟩)
    · cases h
  | next =>
    rw [run] at h
    split at h
    · rename_i d ds hdispatches
      obtain ⟨-,h⟩ := Option.ite_none_left_eq_some.mp h
      exact Or.inr (Or.inr ⟨rfl,d,ds,hdispatches,(Option.some.inj h).symm⟩)
    · cases h

theorem goes_of_step {action : ApmAction Uri} (h : s.Step action s') : s.Goes s' := by
  rcases step_cases h with ⟨a,-,hrun⟩ | ⟨-,d,ds,hdispatches,rfl⟩ | ⟨-,d,ds,hdispatches,rfl⟩
  · exact goes_runUser hrun
  · exact .returned d ds hdispatches rfl rfl rfl rfl
  · exact goes_next hdispatches

/-- The dispatches are of different events, and what is logged is of events there have been. -/
structure Numbered (s : Apm) : Prop where
  dispatches : ∀ d ∈ s.dispatches, d.event.id < s.notified
  distinct : (s.dispatches.map (·.event.id)).Nodup
  calls : ∀ c ∈ s.calls, c.event.id < s.notified ∧ c.exceptions = []
  ended : ∀ e ∈ s.ended, e.1 < s.notified

def called (s : Apm) (id : ℕ) : List SubscriberObject :=
  (s.calls.filter (·.event.id = id)).map (·.subscriber)

/-- The dispatch of the event follows the list: it is on its way, or it went to the end, or it
ended with an exception. -/
def Follows (s : Apm) (id : ℕ) (expected : List SubscriberObject) : Prop :=
  (∃ d ∈ s.dispatches, d.event.id = id ∧ s.called id ++ d.remaining = expected) ∨
  ((∀ d ∈ s.dispatches, d.event.id ≠ id) ∧ s.called id <+: expected ∧
    (s.called id = expected ∨ ∃ eg, (id,eg) ∈ s.ended ∧ eg ≠ []))

theorem called_of_calls (h : s'.calls = s.calls) (id : ℕ) : s'.called id = s.called id := by
  rw [called,called,h]

theorem called_append {c : ApmCall} (h : s'.calls = s.calls ++ [c]) (id : ℕ) :
    s'.called id = s.called id ++ if c.event.id = id then [c.subscriber] else [] := by
  rw [called,called,h,List.filter_append,List.map_append]
  by_cases hc : c.event.id = id
  · simp [hc]
  · simp [hc]

/-- The events of the dispatches, innermost first. -/
def eventIds (s : Apm) : List ℕ := s.dispatches.map (·.event.id)

theorem Numbered.lt_of_mem (h : s.Numbered) {id : ℕ} (hid : id ∈ s.eventIds) :
    id < s.notified := by
  obtain ⟨d,hd,rfl⟩ := List.mem_map.mp hid
  exact h.dispatches d hd

/-- Dispatches end, at most one of a new event begins, and the log grows. -/
theorem Numbered.of_step (h : s.Numbered) (hnotified : s.notified ≤ s'.notified)
    (hids : s'.eventIds.Sublist (s.notified::s.eventIds))
    (hnew : s.notified ∈ s'.eventIds → s.notified < s'.notified)
    (hcalls : ∀ c ∈ s'.calls, c ∈ s.calls ∨ (c.event.id < s'.notified ∧ c.exceptions = []))
    (hended : ∀ e ∈ s'.ended, e ∈ s.ended ∨ e.1 < s'.notified) : s'.Numbered := by
  refine ⟨fun d hd => ?_,?_,fun c hc => ?_,fun e he => ?_⟩
  · have hid : d.event.id ∈ s'.eventIds := List.mem_map.mpr ⟨d,hd,rfl⟩
    rcases List.mem_cons.mp (hids.subset hid) with heq | hold
    · rw [heq] at hid ⊢
      exact hnew hid
    · exact (h.lt_of_mem hold).trans_le hnotified
  · have hfresh : s.notified ∉ s.eventIds := fun hmem => (h.lt_of_mem hmem).false
    exact (List.nodup_cons.mpr ⟨hfresh,h.distinct⟩).sublist hids
  · rcases hcalls c hc with hold | hnew
    · exact ⟨(h.calls c hold).1.trans_le hnotified,(h.calls c hold).2⟩
    · exact hnew
  · rcases hended e he with hold | hnew
    · exact (h.ended e hold).trans_le hnotified
    · exact hnew

/-- The same for a step that begins no dispatch and ends none. -/
theorem Numbered.of_eventIds (h : s.Numbered) (hnotified : s.notified ≤ s'.notified)
    (hids : s'.eventIds = s.eventIds)
    (hcalls : ∀ c ∈ s'.calls, c ∈ s.calls ∨ (c.event.id < s'.notified ∧ c.exceptions = []))
    (hended : ∀ e ∈ s'.ended, e ∈ s.ended ∨ e.1 < s'.notified) : s'.Numbered := by
  refine h.of_step hnotified (hids ▸ List.sublist_cons_self _ _) (fun hmem => ?_) hcalls hended
  rw [hids] at hmem
  exact absurd (h.lt_of_mem hmem) (lt_irrefl _)

theorem Numbered.goes (h : s.Numbered) (hgoes : s.Goes s') : s'.Numbered := by
  cases hgoes with
  | same hdispatches hnotified hcalls hended =>
    exact h.of_eventIds hnotified (by rw [eventIds,hdispatches,eventIds])
      (fun c hc => Or.inl (hcalls ▸ hc)) (fun e he => Or.inl (hended ▸ he))
  | began d hid hdispatches hnotified hcalls hended =>
    refine h.of_step (by omega) ?_ (fun _ => by omega) (fun c hc => Or.inl (hcalls ▸ hc))
      (fun e he => Or.inl (hended ▸ he))
    rw [eventIds,hdispatches,List.map_cons,hid]
    exact List.Sublist.refl _
  | finished d hover hdispatches hnotified hcalls hended =>
    have hids : s.eventIds = d.event.id::s'.eventIds := by
      rw [eventIds,hdispatches,List.map_cons,eventIds]
    have hsub : s'.eventIds.Sublist s.eventIds := hids ▸ List.sublist_cons_self _ _
    refine h.of_step hnotified.ge (hsub.cons _) (fun hmem => ?_) (fun c hc => Or.inl (hcalls ▸ hc))
      fun e he => ?_
    · exact absurd (h.lt_of_mem (hsub.subset hmem)) (lt_irrefl _)
    · rw [hended] at he
      refine (List.mem_append.mp he).imp_right fun he => ?_
      rw [List.mem_singleton.mp he,hnotified]
      exact h.dispatches d (hdispatches ▸ List.mem_cons_self)
  | called d ds o rest hremaining hdispatches hdispatches' hnotified hnil hcalls hended =>
    refine h.of_eventIds hnotified.ge ?_ (fun c hc => ?_) (fun e he => Or.inl (hended ▸ he))
    · rw [eventIds,eventIds,hdispatches,hdispatches',List.map_cons,List.map_cons]
    · rw [hcalls] at hc
      refine (List.mem_append.mp hc).imp_right fun hc => ?_
      rw [List.mem_singleton.mp hc,hnotified]
      exact ⟨h.dispatches d (hdispatches ▸ List.mem_cons_self),hnil⟩
  | returned d ds hdispatches hdispatches' hnotified hcalls hended =>
    refine h.of_eventIds hnotified.ge ?_ (fun c hc => Or.inl (hcalls ▸ hc))
      (fun e he => Or.inl (hended ▸ he))
    rw [eventIds,eventIds,hdispatches,hdispatches',List.map_cons,List.map_cons]

theorem Goes.notified_le (hgoes : s.Goes s') : s.notified ≤ s'.notified := by
  cases hgoes with
  | same _ hnotified _ _ => exact hnotified
  | began _ _ _ hnotified _ _ => exact hnotified ▸ Nat.le_succ _
  | finished _ _ _ hnotified _ _ => exact hnotified.ge
  | called _ _ _ _ _ _ _ hnotified _ _ _ => exact hnotified.ge
  | returned _ _ _ _ hnotified _ _ => exact hnotified.ge

theorem Goes.ended_subset (hgoes : s.Goes s') : s.ended ⊆ s'.ended := by
  cases hgoes with
  | same _ _ _ hended => exact hended ▸ List.Subset.refl _
  | began _ _ _ _ _ hended => exact hended ▸ List.Subset.refl _
  | finished _ _ _ _ _ hended => exact hended ▸ List.subset_append_left _ _
  | called _ _ _ _ _ _ _ _ _ _ hended => exact hended ▸ List.Subset.refl _
  | returned _ _ _ _ _ _ hended => exact hended ▸ List.Subset.refl _

section Following
variable {id : ℕ} {expected : List SubscriberObject} {d : Dispatch} {ds : List Dispatch}

/-- Nothing is called for the event, and what is left of its dispatch stays the same. -/
theorem Follows.of_called (h : s.Follows id expected) (hended : s.ended ⊆ s'.ended)
    (hcalled : s'.called id = s.called id)
    (hon : ∀ d ∈ s.dispatches, d.event.id = id → ∃ d' ∈ s'.dispatches, d'.event.id = id ∧
      d'.remaining = d.remaining)
    (hoff : ∀ d ∈ s'.dispatches, d.event.id = id → ∃ d' ∈ s.dispatches, d'.event.id = id) :
    s'.Follows id expected := by
  rcases h with ⟨d,hd,he,hexpected⟩ | ⟨hnone,hbegins,hend⟩
  · obtain ⟨d',hd',he',hremaining⟩ := hon d hd he
    exact Or.inl ⟨d',hd',he',by rw [hcalled,hremaining,hexpected]⟩
  · refine Or.inr ⟨fun d hd he => ?_,hcalled ▸ hbegins,?_⟩
    · obtain ⟨d',hd',he'⟩ := hoff d hd he
      exact hnone d' hd' he'
    · rw [hcalled]
      exact hend.imp_right fun ⟨eg,heg,hne⟩ => ⟨eg,hended heg,hne⟩

/-- The same where the dispatches of the event are the same. -/
theorem Follows.of_mem_iff (h : s.Follows id expected) (hended : s.ended ⊆ s'.ended)
    (hcalled : s'.called id = s.called id)
    (hmem : ∀ d : Dispatch, d.event.id = id → (d ∈ s'.dispatches ↔ d ∈ s.dispatches)) :
    s'.Follows id expected :=
  h.of_called hended hcalled (fun d hd he => ⟨d,(hmem d he).mpr hd,he,rfl⟩)
    fun d hd he => ⟨d,(hmem d he).mp hd,he⟩

theorem mem_cons_iff_of_event_ne {d d' : Dispatch} (hd : d.event.id ≠ id)
    (he : d'.event.id = id) : d' ∈ d::ds ↔ d' ∈ ds := by
  rw [List.mem_cons]
  exact or_iff_right fun heq => hd (heq ▸ he)

theorem Numbered.ne_of_innermost (hnumbered : s.Numbered) (hdispatches : s.dispatches = d::ds) :
    ∀ d' ∈ ds, d'.event.id ≠ d.event.id := by
  have hdistinct := hnumbered.distinct
  rw [hdispatches,List.map_cons,List.nodup_cons] at hdistinct
  exact fun d' hd' he => hdistinct.1 (List.mem_map.mpr ⟨d',hd',he⟩)

/-- The innermost dispatch has the rest of its list before it. -/
theorem Follows.expected_eq (h : s.Follows d.event.id expected) (hnumbered : s.Numbered)
    (hdispatches : s.dispatches = d::ds) : s.called d.event.id ++ d.remaining = expected := by
  rcases h with ⟨d',hd',he,hexpected⟩ | ⟨hnone,-⟩
  · rw [hdispatches] at hd'
    rcases List.mem_cons.mp hd' with rfl | hd'
    · exact hexpected
    · exact absurd he (hnumbered.ne_of_innermost hdispatches d' hd')
  · exact absurd rfl (hnone d (hdispatches ▸ List.mem_cons_self))

/-- The event's own dispatch ends: at the end of its list, or with an exception. -/
theorem Follows.finish (h : s.Follows d.event.id expected) (hnumbered : s.Numbered)
    (hover : d.remaining = [] ∨ s.exceptions ≠ [])
    (hdispatches : s.dispatches = d::s'.dispatches)
    (hcalled : s'.called d.event.id = s.called d.event.id)
    (hended : s'.ended = s.ended ++ [(d.event.id,s.exceptions)]) :
    s'.Follows d.event.id expected := by
  have hexpected := h.expected_eq hnumbered hdispatches
  refine Or.inr ⟨hnumbered.ne_of_innermost hdispatches,
    ⟨d.remaining,by rw [hcalled,hexpected]⟩,?_⟩
  rcases hover with hnil | hne
  · rw [hnil,List.append_nil] at hexpected
    exact Or.inl (hcalled.trans hexpected)
  · refine Or.inr ⟨s.exceptions,?_,hne⟩
    rw [hended]
    exact List.mem_append_right _ (List.mem_singleton.mpr rfl)

theorem Follows.call {o : SubscriberObject} {rest : List SubscriberObject}
    (h : s.Follows d.event.id expected) (hnumbered : s.Numbered)
    (hremaining : d.remaining = o::rest) (hdispatches : s.dispatches = d::ds)
    (hdispatches' : s'.dispatches = { d with remaining := rest, running := true }::ds)
    (hcalled : s'.called d.event.id = s.called d.event.id ++ [o]) :
    s'.Follows d.event.id expected := by
  have hmem : { d with remaining := rest, running := true } ∈ s'.dispatches := by
    rw [hdispatches']
    exact List.mem_cons_self
  refine Or.inl ⟨_,hmem,rfl,?_⟩
  rw [hcalled,List.append_assoc,List.singleton_append,← hremaining]
  exact h.expected_eq hnumbered hdispatches

/-- The dispatch of an event that has been stays on its list. -/
theorem Follows.goes (h : s.Follows id expected) (hnumbered : s.Numbered) (hid : id < s.notified)
    (hgoes : s.Goes s') : s'.Follows id expected := by
  have hended := hgoes.ended_subset
  cases hgoes with
  | same hdispatches hnotified hcalls _ =>
    exact h.of_mem_iff hended (called_of_calls hcalls id) fun d he => by rw [hdispatches]
  | began d hnew hdispatches hnotified hcalls _ =>
    refine h.of_mem_iff hended (called_of_calls hcalls id) fun d' he => ?_
    rw [hdispatches]
    exact mem_cons_iff_of_event_ne (hnew.trans_ne hid.ne') he
  | finished d hover hdispatches hnotified hcalls hended' =>
    have hcalled := called_of_calls hcalls id
    by_cases hd : d.event.id = id
    · subst hd
      exact h.finish hnumbered hover hdispatches hcalled hended'
    · refine h.of_mem_iff hended hcalled fun d' he => ?_
      rw [hdispatches]
      exact (mem_cons_iff_of_event_ne hd he).symm
  | called d ds o rest hremaining hdispatches hdispatches' hnotified hnil hcalls _ =>
    have hcalled := called_append hcalls id
    by_cases hd : d.event.id = id
    · subst hd
      rw [if_pos rfl] at hcalled
      exact h.call hnumbered hremaining hdispatches hdispatches' hcalled
    · rw [if_neg hd,List.append_nil] at hcalled
      refine h.of_mem_iff hended hcalled fun d' he => ?_
      rw [hdispatches,hdispatches',mem_cons_iff_of_event_ne hd he]
      exact mem_cons_iff_of_event_ne hd he
  | returned d ds hdispatches hdispatches' hnotified hcalls _ =>
    refine h.of_called hended (called_of_calls hcalls id) ?_ ?_
    · intro d' hd' he
      rw [hdispatches] at hd'
      rcases List.mem_cons.mp hd' with rfl | hd'
      · refine ⟨{ d' with running := false },?_,he,rfl⟩
        rw [hdispatches']
        exact List.mem_cons_self
      · exact ⟨d',hdispatches' ▸ List.mem_cons_of_mem _ hd',he,rfl⟩
    · intro d' hd' he
      rw [hdispatches'] at hd'
      rcases List.mem_cons.mp hd' with rfl | hd'
      · exact ⟨d,hdispatches ▸ List.mem_cons_self,he⟩
      · exact ⟨d',hdispatches ▸ List.mem_cons_of_mem _ hd',he⟩

end Following

section Progress
variable {d : Dispatch} {ds : List Dispatch}

theorem step_next (hdispatches : s.dispatches = d::ds) (hrunning : d.running = false) :
    s.Step (.next : ApmAction Uri) (s.next d ds) := by
  simp [Step,run,hdispatches,hrunning]

theorem step_return (hdispatches : s.dispatches = d::ds) (hrunning : d.running = true) :
    s.Step (.return : ApmAction Uri)
      { s with dispatches := { d with running := false }::ds } := by
  simp [Step,run,hdispatches,hrunning]

theorem next_cons {o : SubscriberObject} {rest : List SubscriberObject} (ds : List Dispatch)
    (hremaining : d.remaining = o::rest) (hnil : s.exceptions = []) : s.next d ds = { s with
      dispatches := { d with remaining := rest, running := true }::ds
      calls := s.calls ++ [⟨d.event,o,s.exceptions⟩] } := by
  simp [next,hremaining,hnil]

/-- With nothing pending the loop calls the next on its list, if any. -/
theorem called_next (d : Dispatch) (ds : List Dispatch) (hnil : s.exceptions = []) (id : ℕ) :
    (s.next d ds).called id = s.called id ++ if d.event.id = id then d.remaining.take 1 else [] := by
  cases hremaining : d.remaining with
  | nil => simp [next,hremaining,called]
  | cons o rest =>
    have hcalls : (s.next d ds).calls = s.calls ++ [⟨d.event,o,s.exceptions⟩] := by
      rw [next_cons ds hremaining hnil]
    exact called_append hcalls id

/-- A loop that nothing disturbs goes through its list. -/
theorem reaches_next (Uri : Type) (ds : List Dispatch) : ∀ (s : Apm) (d : Dispatch),
    s.dispatches = d::ds → d.running = false → s.exceptions = [] →
    ∃ s', Reaches (@Step Uri) (fun _ action => action.Idle) s s' ∧ s'.dispatches = ds ∧
      s'.exceptions = [] ∧
      ∀ id, s'.called id = s.called id ++ if d.event.id = id then d.remaining else [] := by
  intro s d
  induction hremaining : d.remaining generalizing s d with
  | nil =>
    intro hdispatches hrunning hnil
    refine ⟨s.next d ds,Reaches.refl.tail .next trivial (step_next hdispatches hrunning),?_,?_,
      fun id => ?_⟩
    · simp [next,hremaining]
    · simpa [next,hremaining] using hnil
    · rw [called_next d ds hnil,hremaining]
      rfl
  | cons o rest ih =>
    intro hdispatches hrunning hnil
    have hnext := next_cons ds hremaining hnil
    have hcalled := called_next d ds hnil
    -- the method is called and returns
    obtain ⟨s',hreaches,hdispatches',hnil',hcalled'⟩ := ih
      { s.next d ds with dispatches := { d with remaining := rest, running := false }::ds }
      { d with remaining := rest, running := false } rfl rfl rfl (by rw [hnext]; exact hnil)
    have hreturn : (s.next d ds).Step (.return : ApmAction Uri)
        { s.next d ds with dispatches := { d with remaining := rest, running := false }::ds } := by
      rw [hnext]
      exact step_return (d:={ d with remaining := rest, running := true }) rfl rfl
    refine ⟨s',((Reaches.refl.tail .next trivial (step_next hdispatches hrunning)).tail .return
      trivial hreturn).trans hreaches,hdispatches',hnil',fun id => ?_⟩
    refine (hcalled' id).trans ?_
    have hsame : ({ s.next d ds with
        dispatches := { d with remaining := rest, running := false }::ds } : Apm).called id =
        (s.next d ds).called id := rfl
    rw [hsame,hcalled id,hremaining]
    by_cases hid : d.event.id = id
    · simp [hid]
    · simp [hid]

theorem reaches_finish (Uri : Type) (hdispatches : s.dispatches = d::ds)
    (hnil : s.exceptions = []) :
    ∃ s', Reaches (@Step Uri) (fun _ action => action.Idle) s s' ∧ s'.dispatches = ds ∧
      s'.exceptions = [] ∧
      ∀ id, s'.called id = s.called id ++ if d.event.id = id then d.remaining else [] := by
  cases hrunning : d.running with
  | false => exact reaches_next Uri ds s d hdispatches hrunning hnil
  | true =>
    obtain ⟨s',hreaches,hrest⟩ := reaches_next Uri ds
      { s with dispatches := { d with running := false }::ds } { d with running := false } rfl rfl
      hnil
    exact ⟨s',(Reaches.refl.tail .return trivial (step_return hdispatches hrunning)).trans
      hreaches,hrest⟩

/-- The dispatches within that of an event end, and then it goes through its list. -/
theorem Follows.reaches_called (Uri : Type) {id : ℕ} {expected : List SubscriberObject}
    (h : s.Follows id expected) (hnumbered : s.Numbered) (hnil : s.exceptions = [])
    (hon : ∃ d ∈ s.dispatches, d.event.id = id) :
    ∃ s', Reaches (@Step Uri) (fun _ action => action.Idle) s s' ∧ s'.called id = expected ∧
      ∀ d ∈ s'.dispatches, d.event.id ≠ id := by
  induction hdispatches : s.dispatches generalizing s with
  | nil => simp [hdispatches] at hon
  | cons d ds ih =>
    obtain ⟨s',hreaches,hdispatches',hnil',hcalled⟩ := reaches_finish Uri hdispatches hnil
    by_cases hid : d.event.id = id
    · subst hid
      refine ⟨s',hreaches,?_,?_⟩
      · rw [hcalled,if_pos rfl]
        exact h.expected_eq hnumbered hdispatches
      · rw [hdispatches']
        exact hnumbered.ne_of_innermost hdispatches
    · obtain ⟨d',hd',he⟩ := hon
      have hd' : d' ∈ ds := by
        rw [hdispatches] at hd'
        exact (mem_cons_iff_of_event_ne hid he).mp hd'
      have hgoes : s'.Follows id expected ∧ s'.Numbered ∧ id < s'.notified := by
        have hlt : id < s.notified := by
          rw [← he]
          exact hnumbered.dispatches d' (hdispatches ▸ List.mem_cons_of_mem _ hd')
        refine hreaches.invariant (I:=fun t => t.Follows id expected ∧ t.Numbered ∧ id < t.notified)
          (fun t action t' ht _ hstep => ?_) ⟨h,hnumbered,hlt⟩
        have hgoes := goes_of_step hstep
        exact ⟨ht.1.goes ht.2.1 ht.2.2 hgoes,ht.2.1.goes hgoes,ht.2.2.trans_le hgoes.notified_le⟩
      obtain ⟨s'',hreaches',hexpected,hoff⟩ :=
        ih hgoes.1 hgoes.2.1 hnil' ⟨d',hdispatches' ▸ hd',he⟩ hdispatches'
      exact ⟨s'',hreaches.trans hreaches',hexpected,hoff⟩

end Progress

end

end Apm

end Phongo
