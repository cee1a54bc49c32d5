import Mathlib.Tactic.Common
import Phongo.Lib.Teardown
import Phongo.Manager.Ages
import Phongo.Manager.Shutdown

/-! The order in which clients are destroyed.
GSHUTDOWN goes from the youngest to the oldest, as key vault clients need it; RSHUTDOWN goes the
other way, and looks at no Cursor or Session that is still alive. -/
namespace Phongo
open OrderedTable Transition Teardown

namespace Process

/-- The client `y` has `x` as its key vault client. -/
def Uses (s : Process) (y x : ℕ) : Prop :=
  ∃ record, s.clients[y]? = some record ∧ record.keyVaultClient = some x

def Destroyed (s : Process) (c : ℕ) : Prop := ClientCall.destroy c ∈ s.calls

/-- A Cursor or Session that is alive belongs to the client. -/
def HasHandle (s : Process) (c : ℕ) : Prop :=
  ∃ h ∈ s.handles, h.kind ≠ .server ∧ h.manager.client = some c

structure Destroyable (s : Process) (c : ℕ) : Prop where
  unused : Unused s.Uses s.Destroyed c
  noHandle : ¬ s.HasHandle c
  once : ¬ s.Destroyed c

theorem Ages.lt_of_uses {s : Process} (h : s.Ages) (x y : ℕ) (hy : s.Uses y x) : x < y := by
  obtain ⟨record,hrecord,hk⟩ := hy
  exact h.keyVaultOlder y record x hrecord hk

end Process

namespace Ending
variable {e e' : Ending} {pids : List ℕ}

/-- No client was destroyed before its time or twice, and no registry that is NULL was
iterated. -/
structure Orderly (e : Ending) : Prop where
  destructions : ∀ d ∈ e.destructions, d.2.Destroyable d.1
  notNull : e.nullIterated = false

structure Sound (e : Ending) : Prop where
  ages : e.process.Ages
  null : e.registriesNull = true → e.process.requestClients = []

/-- The clients among those of a registry that the process has made. -/
def own (pid : ℕ) (pclients : List Pclient) : List ℕ :=
  (pclients.filter (·.createdByPid = pid)).map (·.client)

theorem mem_own {pid c : ℕ} {ps : List Pclient} :
    c ∈ own pid ps ↔ ∃ p ∈ ps, p.createdByPid = pid ∧ p.client = c := by
  simp only [own,List.mem_map,List.mem_filter,decide_eq_true_eq,and_assoc]

theorem own_sublist (pid : ℕ) (ps : List Pclient) :
    (own pid ps).Sublist (ps.map (·.client)) := List.filter_sublist.map _

theorem own_cons (pid : ℕ) (p : Pclient) (ps : List Pclient) :
    own pid (p::ps) = if p.createdByPid = pid then p.client::own pid ps else own pid ps := by
  unfold own
  rw [List.filter_cons]
  split <;> rename_i h <;> simp_all

theorem own_reverse (pid : ℕ) (ps : List Pclient) :
    own pid ps.reverse = (own pid ps).reverse := by
  simp only [own,List.filter_reverse,List.map_reverse]

theorem process_destroyAll (e : Ending) (ps : List Pclient) :
    (e.destroyAll ps).process = { e.process with
      calls := ((own e.process.pid ps).map .destroy).reverse ++ e.process.calls } := by
  unfold destroyAll
  induction ps generalizing e with
  | nil => simp [own]
  | cons p ps ih =>
    rw [List.foldl_cons,ih,own_cons]
    unfold destroy Process.pclientDestroy
    split
    · simp
    · rfl

theorem flags_destroyAll (e : Ending) (ps : List Pclient) :
    (e.destroyAll ps).nullIterated = e.nullIterated ∧
      (e.destroyAll ps).registriesNull = e.registriesNull := by
  unfold destroyAll
  induction ps generalizing e with
  | nil => exact ⟨rfl,rfl⟩
  | cons p ps ih => exact ih (e.destroy p)

/-- Each client is destroyable in its turn exactly if the teardown is orderly and no Cursor or
Session is left. -/
theorem destructions_destroyAll (e : Ending) (ps : List Pclient)
    (hnodup : (own e.process.pid ps).Nodup)
    (halive : ∀ c ∈ own e.process.pid ps, ¬ e.process.Destroyed c) :
    (∀ d ∈ (e.destroyAll ps).destructions, d.2.Destroyable d.1) ↔
      (∀ d ∈ e.destructions, d.2.Destroyable d.1) ∧
      Teardown.Orderly e.process.Uses e.process.Destroyed (own e.process.pid ps) ∧
      ∀ c ∈ own e.process.pid ps, ¬ e.process.HasHandle c := by
  unfold destroyAll
  induction ps generalizing e with
  | nil => simp [own,Teardown.Orderly]
  | cons p ps ih =>
    rw [List.foldl_cons]
    rw [own_cons] at hnodup halive ⊢
    by_cases hp : p.createdByPid = e.process.pid
    · rw [if_pos hp] at hnodup halive ⊢
      obtain ⟨hnot,hnodup⟩ := List.nodup_cons.mp hnodup
      obtain ⟨hp',halive⟩ := List.forall_mem_cons.mp halive
      have hprocess : (e.destroy p).process =
          { e.process with calls := .destroy p.client::e.process.calls } := by
        simp [destroy,Process.pclientDestroy,hp]
      have hdestructions : (e.destroy p).destructions = (p.client,e.process)::e.destructions := by
        simp [destroy,hp]
      have hdead : ∀ c, (e.destroy p).process.Destroyed c ↔
          c = p.client ∨ e.process.Destroyed c := fun c => by
        rw [hprocess,Process.Destroyed,List.mem_cons,ClientCall.destroy.injEq]
        exact Iff.rfl
      have hrest := ih (e.destroy p) (by rw [hprocess]; exact hnodup) fun c hc hd => by
        rw [hprocess] at hc
        rcases (hdead c).mp hd with rfl | hd
        · exact hnot hc
        · exact halive c hc hd
      have hpid : (e.destroy p).process.pid = e.process.pid := by rw [hprocess]
      have huses : (e.destroy p).process.Uses = e.process.Uses := by
        funext y x
        rw [hprocess]
        rfl
      have hhandle : (e.destroy p).process.HasHandle = e.process.HasHandle := by
        funext c
        rw [hprocess]
        rfl
      rw [hrest,hdestructions,hpid,huses,hhandle,List.forall_mem_cons,List.forall_mem_cons,
        Teardown.Orderly,orderly_congr hdead]
      constructor
      · rintro ⟨⟨⟨hunused,hnone,-⟩,hold⟩,horderly,hnone'⟩
        exact ⟨hold,⟨hunused,horderly⟩,hnone,hnone'⟩
      · rintro ⟨hold,⟨hunused,horderly⟩,hnone,hnone'⟩
        exact ⟨⟨⟨hunused,hnone,hp'⟩,hold⟩,horderly,hnone'⟩
    · rw [if_neg hp] at hnodup halive ⊢
      have hsame : e.destroy p = e := by
        simp [destroy,Process.pclientDestroy,hp]
      rw [hsame]
      exact ih e hnodup halive

/-- A client that the action destroys has no Cursor or Session left, and nothing that will not be
destroyed before it uses it. -/
def Admits (e : Ending) : EndAction → Prop
  | .freeManager id => ∀ m p, e.process.findManager id = some m →
      m.usePersistentClient = false →
      e.process.requestClients.find? (fun p => some p.client = m.client) = some p →
      p.createdByPid = e.process.pid →
      ¬ e.process.HasHandle p.client ∧ Unused e.process.Uses e.process.Destroyed p.client
  | .freeHandle id => ∀ h, e.process.handles.find? (·.id = id) = some h →
      e.registriesNull = true → h.kind ≠ .server → h.createdByPid ≠ e.process.pid →
      h.manager.iteratesRequestClients = false
  | .requestShutdown => ∀ p ∈ e.process.requestClients, p.createdByPid = e.process.pid →
      ¬ e.process.HasHandle p.client ∧ Unused e.process.Uses e.process.Destroyed p.client
  | .globalsShutdown => ∀ p ∈ e.process.persistentClients.map Prod.snd,
      p.createdByPid = e.process.pid → ¬ e.process.HasHandle p.client ∧
      ∀ y, e.process.Uses y p.client → e.process.Destroyed y ∨
        ∃ q ∈ e.process.persistentClients.map Prod.snd, q.client = y

theorem Sound.destroyed_of_own (h : e.Sound) {ps : List Pclient} (hps : ps ⊆ e.process.pclients) :
    ∀ c ∈ own e.process.pid ps, ¬ e.process.Destroyed c := by
  intro c hc
  obtain ⟨p,hp,-,rfl⟩ := mem_own.mp hc
  exact h.ages.alive p (hps hp)

theorem Sound.destroyAll (h : e.Sound) (ps : List Pclient)
    {persistentClients : Table Bytes Pclient} {requestClients : List Pclient}
    (hpersistent : persistentClients.Sublist e.process.persistentClients)
    (hrequest : requestClients.Sublist e.process.requestClients)
    (hps : ∀ p ∈ ps, ∀ q ∈ persistentClients.map Prod.snd ++ requestClients,
      q.client ≠ p.client) :
    Process.Ages { (e.destroyAll ps).process with
      persistentClients := persistentClients, requestClients := requestClients } := by
  rw [process_destroyAll]
  have hkept := h.ages.sublist hpersistent hrequest
  exact { hkept with
    known := hkept.known
    alive := fun q hq hd => by
      rcases List.mem_append.mp hd with hd | hd
      · obtain ⟨c,hc,he⟩ := List.mem_map.mp (List.mem_reverse.mp hd)
        cases he
        obtain ⟨p,hp,-,hpc⟩ := mem_own.mp hc
        exact hps p hp q hq hpc.symm
      · exact hkept.alive q hq hd }

theorem Sound.disjoint (h : e.Sound) {p q : Pclient}
    (hp : p ∈ e.process.persistentClients.map Prod.snd) (hq : q ∈ e.process.requestClients) :
    p.client ≠ q.client := by
  have hnodup := h.ages.clientsNodup
  rw [Process.pclients,List.map_append] at hnodup
  exact (List.nodup_append.mp hnodup).2.2 _ (List.mem_map_of_mem hp) _ (List.mem_map_of_mem hq)

theorem Sound.requestShutdown (h : e.Sound) : e.requestShutdown.Sound := by
  unfold Ending.requestShutdown
  split
  · exact h
  · have hpersistent : (e.destroyAll e.process.requestClients).process.persistentClients =
        e.process.persistentClients := by rw [process_destroyAll]
    have hages := h.destroyAll e.process.requestClients (List.Sublist.refl _)
      (List.nil_sublist _) fun p hp q hq => by
        rw [List.append_nil] at hq
        exact h.disjoint hq hp
    rw [← hpersistent] at hages
    exact ⟨{ hages with known := hages.known },fun _ => rfl⟩

theorem Sound.globalsShutdown (h : e.Sound) : e.globalsShutdown.Sound := by
  have hages := h.destroyAll (e.process.persistentClients.map Prod.snd).reverse
    (List.nil_sublist _) (List.Sublist.refl _) fun p hp q hq =>
      (h.disjoint (List.mem_reverse.mp hp) hq).symm
  have hrequest : (e.destroyAll
      (e.process.persistentClients.map Prod.snd).reverse).process.requestClients =
      e.process.requestClients := by rw [process_destroyAll]
  rw [← hrequest] at hages
  refine ⟨hages,fun hnull => hrequest.trans (h.null ?_)⟩
  exact (flags_destroyAll _ _).2.symm.trans hnull

theorem Sound.clientUnregister_process (h : e.Sound) (m : Manager) :
    (e.clientUnregister m).process = e.process.clientUnregister m := by
  unfold Ending.clientUnregister Process.clientUnregister
  split
  · rfl
  · split
    · rename_i hnull
      rw [h.null hnull]
      rfl
    · cases e.process.requestClients.find? fun p => some p.client = m.client <;> rfl

theorem flags_clientUnregister (e : Ending) (m : Manager) :
    (e.clientUnregister m).registriesNull = e.registriesNull ∧
      (e.clientUnregister m).nullIterated = e.nullIterated := by
  unfold Ending.clientUnregister
  split
  · exact ⟨rfl,rfl⟩
  · split
    · exact ⟨rfl,rfl⟩
    · split <;> exact ⟨rfl,rfl⟩

/-- The free handler does to the process what it does in a request that goes on. -/
theorem Sound.freeManager_process (h : e.Sound) (m : Manager) :
    (e.freeManager m).process = e.process.freeManager m := by
  have hdrop : Sound { e with process := { e.process with
      managers := e.process.managers.erase m.id
      objects := e.process.objects.filter (·.id ≠ m.id) } } :=
    ⟨{ h.ages with known := h.ages.known },h.null⟩
  unfold Ending.freeManager Process.freeManager
  dsimp only
  split
  · exact hdrop.clientUnregister_process m
  · rfl

theorem Sound.freeManager (h : e.Sound) (m : Manager) : (e.freeManager m).Sound := by
  refine ⟨h.freeManager_process m ▸ h.ages.freeManager m,fun hnull => ?_⟩
  have hnull' : e.registriesNull = true := by
    unfold Ending.freeManager at hnull
    dsimp only at hnull
    split at hnull
    · rwa [(flags_clientUnregister _ _).1] at hnull
    · exact hnull
  have hnil := h.null hnull'
  rw [h.freeManager_process m]
  unfold Process.freeManager Process.clientUnregister
  simp [hnil]

theorem Sound.freeHandle (h : e.Sound) (handle : Handle) : (e.freeHandle handle).Sound := by
  have hsame := Process.same_freeHandle e.process handle
  refine ⟨h.ages.of_same hsame,fun hnull => ?_⟩
  have hrequest := hsame.request
  rw [h.null hnull] at hrequest
  exact List.map_eq_nil_iff.mp hrequest

theorem Sound.step (h : e.Sound) {action : EndAction} (hstep : e.Step action e') : e'.Sound := by
  cases action with
  | freeManager id =>
    obtain ⟨m,-,rfl⟩ := Option.map_eq_some_iff.mp hstep
    exact h.freeManager m
  | freeHandle id =>
    obtain ⟨handle,-,rfl⟩ := Option.map_eq_some_iff.mp hstep
    exact h.freeHandle handle
  | requestShutdown =>
    cases hstep
    exact h.requestShutdown
  | globalsShutdown =>
    cases hstep
    exact h.globalsShutdown

theorem Sound.orderly_requestShutdown (h : e.Sound) (he : e.Orderly) :
    e.requestShutdown.Orderly ↔ e.Admits .requestShutdown := by
  unfold Ending.requestShutdown
  cases hnull : e.registriesNull with
  | true =>
    refine ⟨fun _ p hp => ?_,fun _ => he⟩
    rw [h.null hnull] at hp
    cases hp
  | false =>
    have hsub := own_sublist e.process.pid e.process.requestClients
    have hsorted := h.ages.requestOrder.sublist hsub
    have hiff := destructions_destroyAll e e.process.requestClients (hsorted.imp ne_of_lt)
      (h.destroyed_of_own (List.subset_append_right _ _))
    rw [orderly_iff_of_sorted h.ages.lt_of_uses hsorted] at hiff
    have hflags := (flags_destroyAll e e.process.requestClients).1.trans he.notNull
    constructor
    · intro horderly p hp hpid
      obtain ⟨-,hunused,hnone⟩ := hiff.mp horderly.destructions
      have hown := mem_own.mpr ⟨p,hp,hpid,rfl⟩
      exact ⟨hnone _ hown,hunused _ hown⟩
    · intro hadmits
      refine ⟨hiff.mpr ⟨he.destructions,fun c hc => ?_,fun c hc => ?_⟩,hflags⟩
      · obtain ⟨p,hp,hpid,rfl⟩ := mem_own.mp hc
        exact (hadmits p hp hpid).2
      · obtain ⟨p,hp,hpid,rfl⟩ := mem_own.mp hc
        exact (hadmits p hp hpid).1

/-- A registered client that uses one made by the process was made by the process. -/
theorem Sound.createdByPid_of_uses (h : e.Sound) {p q : Pclient} (hp : p ∈ e.process.pclients)
    (hq : q ∈ e.process.pclients) (hpid : p.createdByPid = e.process.pid)
    (huses : e.process.Uses q.client p.client) : q.createdByPid = e.process.pid := by
  obtain ⟨record,hrecord,hk⟩ := huses
  have hlt := h.ages.keyVaultOlder q.client record p.client hrecord hk
  have hp' := List.getElem?_eq_getElem (h.ages.known p hp)
  have hcreated := (h.ages.creator p hp _ hp').trans hpid
  rw [← h.ages.creator q hq record hrecord]
  exact h.ages.ownLater p.client q.client _ record hlt hp' hrecord hcreated

theorem Sound.orderly_globalsShutdown (h : e.Sound) (he : e.Orderly) :
    e.globalsShutdown.Orderly ↔ e.Admits .globalsShutdown := by
  have hregistered : e.process.persistentClients.map Prod.snd ⊆ e.process.pclients :=
    List.subset_append_left _ _
  have horder : ((e.process.persistentClients.map Prod.snd).map (·.client)).Pairwise (· < ·) := by
    rw [List.map_map]
    exact h.ages.persistentOrder
  have hsorted := horder.sublist
    (own_sublist e.process.pid (e.process.persistentClients.map Prod.snd))
  have hiff := destructions_destroyAll e (e.process.persistentClients.map Prod.snd).reverse
    (by rw [own_reverse]; exact List.nodup_reverse.mpr (hsorted.imp ne_of_lt))
    (h.destroyed_of_own fun p hp => hregistered (List.mem_reverse.mp hp))
  rw [own_reverse,orderly_reverse_iff_of_sorted h.ages.lt_of_uses hsorted] at hiff
  have hflags := (flags_destroyAll e (e.process.persistentClients.map Prod.snd).reverse).1.trans
    he.notNull
  constructor
  · intro horderly p hp hpid
    obtain ⟨-,hbefore,hnone⟩ := hiff.mp horderly.destructions
    have hown := mem_own.mpr ⟨p,hp,hpid,rfl⟩
    refine ⟨hnone _ (List.mem_reverse.mpr hown),fun y hy => ?_⟩
    refine (hbefore _ hown y hy).imp id fun hy => ?_
    obtain ⟨q,hq,-,hc⟩ := mem_own.mp hy
    exact ⟨q,hq,hc⟩
  · intro hadmits
    refine ⟨hiff.mpr ⟨he.destructions,fun c hc y hy => ?_,fun c hc => ?_⟩,hflags⟩
    · obtain ⟨p,hp,hpid,rfl⟩ := mem_own.mp hc
      refine ((hadmits p hp hpid).2 y hy).imp id ?_
      rintro ⟨q,hq,rfl⟩
      exact mem_own.mpr ⟨q,hq,h.createdByPid_of_uses (hregistered hp) (hregistered hq) hpid hy,rfl⟩
    · obtain ⟨p,hp,hpid,rfl⟩ := mem_own.mp (List.mem_reverse.mp hc)
      exact (hadmits p hp hpid).1

/-- The process between the two halves of the free handler of a Manager. -/
theorem destroyable_drop (s : Process) (managers : List ℕ) (objects : List Manager)
    (requestClients : List Pclient) (c : ℕ) :
    Process.Destroyable { s with managers := managers, objects := objects
                                 requestClients := requestClients } c ↔ s.Destroyable c :=
  ⟨fun h => ⟨h.unused,h.noHandle,h.once⟩,fun h => ⟨h.unused,h.noHandle,h.once⟩⟩

theorem Sound.orderly_freeManager (h : e.Sound) (he : e.Orderly) {id : ℕ} {m : Manager}
    (hfind : e.process.findManager id = some m) :
    (e.freeManager m).Orderly ↔ e.Admits (.freeManager id) := by
  have hadmits : e.Admits (.freeManager id) ↔ (m.usePersistentClient = false → ∀ p,
      e.process.requestClients.find? (fun p => some p.client = m.client) = some p →
      p.createdByPid = e.process.pid →
      ¬ e.process.HasHandle p.client ∧ Unused e.process.Uses e.process.Destroyed p.client) := by
    constructor
    · exact fun ha hp p => ha m p hfind hp
    · intro ha m' p hfind'
      obtain rfl := Option.some.inj (hfind.symm.trans hfind')
      exact fun hp => ha hp p
  rw [hadmits]
  unfold Ending.freeManager Ending.clientUnregister
  dsimp only
  cases hclient : m.client with
  | none =>
    refine ⟨fun _ _ p hp => absurd (List.find?_some hp) (by simp),fun _ => ⟨he.1,he.2⟩⟩
  | some client =>
    rw [Option.isSome_some,if_pos rfl]
    by_cases hpersistent : m.usePersistentClient = true
    · rw [if_pos hpersistent]
      exact ⟨fun _ hp => absurd hp (by simp [hpersistent]),fun _ => ⟨he.1,he.2⟩⟩
    · rw [if_neg hpersistent]
      have hp : m.usePersistentClient = false := by simpa using hpersistent
      cases hnull : e.registriesNull with
      | true =>
        refine ⟨fun _ _ p hfound => ?_,fun _ => ⟨he.1,he.2⟩⟩
        rw [h.null hnull] at hfound
        cases hfound
      | false =>
        rw [if_neg Bool.false_ne_true]
        cases hfound : e.process.requestClients.find? fun p => some p.client = some client with
        | none => exact ⟨fun _ _ p hc => by simp at hc,fun _ => ⟨he.1,he.2⟩⟩
        | some p =>
          have halive := h.ages.alive p
            (List.mem_append_right _ (List.mem_of_find?_eq_some hfound))
          by_cases hpid : p.createdByPid = e.process.pid
          · constructor
            · intro horderly _ q hq hqpid
              obtain rfl := Option.some.inj hq
              have hdestroyed := horderly.destructions
              simp only [destroy,hpid,if_true,List.forall_mem_cons] at hdestroyed
              have hp' := (destroyable_drop _ _ _ _ _).mp hdestroyed.1
              exact ⟨hp'.noHandle,hp'.unused⟩
            · intro ha
              obtain ⟨hnone,hunused⟩ := ha hp p rfl hpid
              refine ⟨?_,he.2⟩
              simp only [destroy,hpid,if_true,List.forall_mem_cons]
              exact ⟨(destroyable_drop _ _ _ _ _).mpr ⟨hunused,hnone,halive⟩,he.1⟩
          · refine ⟨fun _ _ q hq hqpid => ?_,fun _ => ⟨?_,he.2⟩⟩
            · obtain rfl := Option.some.inj hq
              exact absurd hqpid hpid
            · simp only [destroy,hpid,if_false]
              exact he.1

theorem orderly_freeHandle (he : e.Orderly) {id : ℕ} {h : Handle}
    (hfind : e.process.handles.find? (·.id = id) = some h) :
    (e.freeHandle h).Orderly ↔ e.Admits (.freeHandle id) := by
  have hnull : (e.freeHandle h).nullIterated = false ↔
      (e.registriesNull = true → h.kind ≠ .server → h.createdByPid ≠ e.process.pid →
        h.manager.iteratesRequestClients = false) := by
    simp only [Ending.freeHandle,he.notNull,Bool.false_or,← Bool.not_eq_true,Bool.and_eq_true,
      decide_eq_true_eq]
    tauto
  constructor
  · intro horderly h' hfind'
    obtain rfl := Option.some.inj (hfind.symm.trans hfind')
    exact hnull.mp horderly.notNull
  · exact fun ha => ⟨he.destructions,hnull.mpr (ha h hfind)⟩

theorem Sound.orderly_step (h : e.Sound) (he : e.Orderly) {action : EndAction}
    (hstep : e.Step action e') : e'.Orderly ↔ e.Admits action := by
  cases action with
  | freeManager id =>
    obtain ⟨m,hfind,rfl⟩ := Option.map_eq_some_iff.mp hstep
    exact h.orderly_freeManager he hfind
  | freeHandle id =>
    obtain ⟨handle,hfind,rfl⟩ := Option.map_eq_some_iff.mp hstep
    exact orderly_freeHandle he hfind
  | requestShutdown =>
    cases hstep
    exact h.orderly_requestShutdown he
  | globalsShutdown =>
    cases hstep
    exact h.orderly_globalsShutdown he

theorem Sound.start {s : Process} (h : s.Ages) : (Ending.start s).Sound :=
  ⟨h,fun hnull => by cases hnull⟩

theorem Orderly.start (s : Process) : (Ending.start s).Orderly :=
  ⟨fun _ hd => absurd hd List.not_mem_nil,rfl⟩

/-- From whatever state a process has reached, and in whatever order its handlers run: while all
steps have met the condition the destruction is orderly, and it stays so exactly if the next step
meets it too. -/
theorem orderly_of_reaches {Uri : Type} {w : World} {pid : ℕ} (hpid : pid ≠ 0)
    (hw : Reaches (@World.Step Uri) always (World.start pid) w) {s : Process}
    (hs : s ∈ w.processes) (he : Reaches Step Admits (Ending.start s) e) :
    e.Orderly ∧ ∀ action e', e.Step action e' → (e'.Orderly ↔ e.Admits action) := by
  have hages := (World.aged_of_reaches hpid hw s hs).toAges
  have hboth := he.invariant (I:=fun e => e.Sound ∧ e.Orderly)
    (fun e action e' h hok hstep =>
      ⟨h.1.step hstep,(h.1.orderly_step h.2 hstep).mpr hok⟩)
    ⟨Sound.start hages,Orderly.start s⟩
  exact ⟨hboth.2,fun action e' hstep => hboth.1.orderly_step hboth.2 hstep⟩

def vaultArgs : ManagerArgs :=
  ⟨CString.lit "mongodb://vault",none,some [(.str (ascii "disableClientPersistence"),.bool true)]⟩

def encryptedArgs : ManagerArgs :=
  ⟨CString.lit "mongodb://data",none,some [(.str (ascii "autoEncryption"),.array none
    [(.str (ascii "keyVaultClient"),.object ClassEntry.manager (some 0) [] .null),
      (.str (ascii "keyVaultNamespace"),.string (ascii "db.keys")),
      (.str (ascii "kmsProviders"),.array none [(.str (ascii "local"),.array none
        [(.str (ascii "key"),.bson (.binary (List.replicate 96 0) 0))])])]),
    (.str (ascii "disableClientPersistence"),.bool true)]⟩

def transient : Process := (Outside.plain.construct (Outside.plain.construct (Process.start 1)
  vaultArgs).1 encryptedArgs).1

theorem reaches_transient :
    Reaches (@World.Step PlainUri) always (World.start 1) ⟨[transient],[1]⟩ :=
  (Reaches.refl.tail _ trivial
    (World.step_single (Process.start 1) (.construct Outside.plain vaultArgs) rfl)).tail _ trivial
    (World.step_single _ (.construct Outside.plain encryptedArgs) rfl)

theorem uses_transient {s : Process} (h : s.clients = [⟨1,none⟩,⟨1,some 0⟩]) {y x : ℕ} :
    s.Uses y x ↔ y = 1 ∧ x = 0 := by
  unfold Process.Uses
  rw [h]
  rcases y with _ | _ | y
  · simp
  · simp [eq_comm]
  · simp

/-- The encrypting Manager goes first, its key vault next, and the registries last. -/
theorem orderly_of_reaches_transient : ∃ e : Ending,
    e.process.calls = [.destroy 0,.destroy 1] ∧ e.registriesNull = true ∧ e.Orderly ∧
    ∀ action e', e.Step action e' → (e'.Orderly ↔ e.Admits action) := by
  let e := Ending.start transient
  obtain ⟨e₁,h₁⟩ : ∃ e₁, e.run (.freeManager 1) = some e₁ := ⟨_,rfl⟩
  obtain ⟨e₂,h₂⟩ : ∃ e₂, e₁.run (.freeManager 0) = some e₂ := by
    cases h₁
    exact ⟨_,rfl⟩
  have hencrypted : e.Admits (.freeManager 1) := by
    intro m p hm _ hp _
    have hclient : ∀ m ∈ e.process.findManager 1, ∀ p ∈ e.process.requestClients.find?
        (fun p => some p.client = m.client), p.client = 1 := by decide +kernel
    rw [hclient m hm p hp]
    refine ⟨by unfold Process.HasHandle; decide +kernel,fun y hy => ?_⟩
    obtain ⟨-,h⟩ := (uses_transient (by decide +kernel)).mp hy
    cases h
  have hvault : e₁.Admits (.freeManager 0) := by
    intro m p hm _ hp _
    have hclient : ∀ e₁ ∈ e.run (.freeManager 1), ∀ m ∈ e₁.process.findManager 0,
        ∀ p ∈ e₁.process.requestClients.find? (fun p => some p.client = m.client),
        p.client = 0 := by decide +kernel
    have hprocess : ∀ e₁ ∈ e.run (.freeManager 1), e₁.process.handles.length = 0 ∧
        e₁.process.clients = [⟨1,none⟩,⟨1,some 0⟩] ∧ ClientCall.destroy 1 ∈ e₁.process.calls := by
      decide +kernel
    obtain ⟨hhandles,hclients,hdestroyed⟩ := hprocess e₁ h₁
    rw [hclient e₁ h₁ m hm p hp]
    refine ⟨?_,fun y hy => ?_⟩
    · rintro ⟨h,hh,-⟩
      rw [List.length_eq_zero_iff.mp hhandles] at hh
      cases hh
    · obtain ⟨rfl,-⟩ := (uses_transient hclients).mp hy
      exact hdestroyed
  have hempty : ∀ e₁ ∈ e.run (.freeManager 1), ∀ e₂ ∈ e₁.run (.freeManager 0),
      e₂.process.requestClients = [] ∧
      e₂.requestShutdown.process.persistentClients.map Prod.snd = [] := by
    decide +kernel
  obtain ⟨hrequest,hpersistent⟩ := hempty e₁ h₁ e₂ h₂
  have hend : Reaches Step Admits e e₂.requestShutdown.globalsShutdown := by
    refine (((Reaches.refl.tail _ hencrypted h₁).tail _ hvault h₂).tail .requestShutdown
      (fun p hp => ?_) rfl).tail .globalsShutdown (fun p hp => ?_) rfl
    · rw [hrequest] at hp
      cases hp
    · rw [hpersistent] at hp
      cases hp
  have hcalls : ∀ e₁ ∈ e.run (.freeManager 1), ∀ e₂ ∈ e₁.run (.freeManager 0),
      e₂.requestShutdown.globalsShutdown.process.calls = [.destroy 0,.destroy 1] ∧
      e₂.requestShutdown.globalsShutdown.registriesNull = true := by
    decide +kernel
  exact ⟨_,(hcalls e₁ h₁ e₂ h₂).1,(hcalls e₁ h₁ e₂ h₂).2,
    orderly_of_reaches (by decide) reaches_transient (List.mem_singleton.mpr rfl) hend⟩

/-- Both Managers are alive at RSHUTDOWN, which destroys the key vault client first. -/
theorem not_orderly_requestShutdown : ∃ w, ∃ s ∈ w.processes, ∃ e,
    Reaches (@World.Step PlainUri) always (World.start 1) w ∧
      Reaches Step always (Ending.start s) e ∧ ¬ e.Orderly := by
  let s₂ := transient
  have hsecond := reaches_transient
  have hages := (World.aged_of_reaches (by decide) hsecond s₂ (List.mem_singleton.mpr rfl)).toAges
  refine ⟨⟨[s₂],[1]⟩,s₂,List.mem_singleton.mpr rfl,(Ending.start s₂).requestShutdown,hsecond,
    Reaches.refl.tail .requestShutdown trivial rfl,fun horderly => ?_⟩
  have hadmits := ((Sound.start hages).orderly_requestShutdown (Orderly.start s₂)).mp horderly
  have hvault : (⟨0,1,0,false⟩ : Pclient) ∈ s₂.requestClients := by decide +kernel
  have huses : s₂.Uses 1 0 := ⟨⟨1,some 0⟩,by decide +kernel,rfl⟩
  have halive : ¬ s₂.Destroyed 1 := by
    unfold Process.Destroyed
    decide +kernel
  exact halive ((hadmits _ hvault (by decide +kernel)).2 1 huses)

end Ending

end Phongo
