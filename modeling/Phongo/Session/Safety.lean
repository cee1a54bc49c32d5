import Mathlib.Tactic.Common
import Phongo.Lib.Run
import Phongo.Session.Owned

/-! Runs over sessions: what libmongoc is given, and that the condition on a step is exact. -/
namespace Phongo
open Transition

namespace SessionHeap

section
variable {s t : SessionHeap} {sid : ℕ}

theorem log_callWith (s : SessionHeap) (function : SessionFunction) (session : Option ℕ) :
    s.log ⊆ (s.callWith function session).log := List.subset_cons_self _ _

theorem log_parseSession (s : SessionHeap) (client : ℕ) (option : SessionOption)
    (append : Option Bool) : s.log ⊆ (s.parseSession client option append).2.log := by
  cases option with
  | absent => exact List.Subset.refl _
  | invalid => exact List.Subset.refl _
  | session sid =>
    have hget : s.log ⊆ ((s.noteEnded sid).callWith .getClient (s.clientSession sid)).log := by
      refine List.Subset.trans ?_ (log_callWith _ _ _)
      unfold noteEnded
      split
      · exact List.subset_cons_self _ _
      · exact List.Subset.refl _
    unfold parseSession
    dsimp only
    split
    · exact hget
    · cases append with
      | none => exact hget
      | some appended => exact List.Subset.trans hget (log_callWith _ _ _)

theorem log_selectServer (s : SessionHeap) (x : Execution) : s.log ⊆ (s.selectServer x).2.log := by
  unfold selectServer
  cases x.option with
  | absent => exact List.Subset.refl _
  | invalid => exact List.Subset.refl _
  | session sid =>
    dsimp only
    split
    · exact List.Subset.trans (log_callWith _ _ _) (log_callWith _ _ _)
    · exact log_callWith _ _ _

theorem log_prepareExecute (s : SessionHeap) (x : Execution) :
    (s.parseSession x.client x.option none).2.log ⊆ (s.prepareExecute x).2.log := by
  unfold prepareExecute
  dsimp only
  split
  · exact List.Subset.refl _
  · exact log_selectServer _ x

theorem log_sendCommand (s : SessionHeap) (x : Execution) : s.log ⊆ (s.sendCommand x).log := by
  have himplicit : s.log ⊆ (if x.unacknowledgedWriteConcern || !x.implicitSession then
      s.push (.command none)
      else
        let sid := s.fresh
        let s := s.newSession x.client
        let s := s.callWith .append (s.clientSession sid)
        if x.stop = some .afterImplicitSession then s
        else (s.callWith .command (s.clientSession sid)).push (.command (some sid))).log := by
    split
    · exact List.Subset.refl _
    · dsimp only
      split
      · exact log_callWith (s.newSession x.client) _ _
      · exact List.Subset.trans (log_callWith (s.newSession x.client) _ _) (log_callWith _ _ _)
  unfold sendCommand
  cases x.option with
  | absent => exact himplicit
  | invalid => exact himplicit
  | session sid =>
    dsimp only
    split
    · exact List.Subset.refl _
    · exact log_callWith _ _ _

theorem log_sendQuery (s : SessionHeap) (x : Execution) : s.log ⊆ (s.sendQuery x).log := by
  unfold sendQuery
  cases x.option with
  | absent => exact List.Subset.refl _
  | invalid => exact List.Subset.refl _
  | session sid => exact log_callWith _ _ _

theorem log_sendBulkWrite (s : SessionHeap) (x : Execution) : s.log ⊆ (s.sendBulkWrite x).log := by
  unfold sendBulkWrite
  cases x.option with
  | absent => exact List.Subset.refl _
  | invalid => exact List.Subset.refl _
  | session sid =>
    dsimp only
    split
    · exact List.Subset.refl _
    · exact log_callWith _ _ _

theorem log_phongoExecute (s : SessionHeap) (x : Execution) (hstop : x.stop ≠ some .beforeSession) :
    (s.parseSession x.client x.option x.append).2.log ⊆ (s.phongoExecute x).log := by
  unfold phongoExecute
  rw [if_neg hstop]
  dsimp only
  split
  · exact List.Subset.refl _
  · cases x.kind with
    | command => exact log_sendCommand _ x
    | query => exact log_sendQuery _ x
    | bulkWrite => exact log_sendBulkWrite _ x

theorem subset_phongoExecute (s : SessionHeap) (x : Execution) :
    s.log ⊆ (s.phongoExecute x).log := by
  by_cases hstop : x.stop = some .beforeSession
  · rw [phongoExecute,if_pos hstop]
    exact List.Subset.refl _
  · exact List.Subset.trans (log_parseSession s x.client x.option x.append)
      (log_phongoExecute s x hstop)

theorem log_freeSessionIfExhausted (s : SessionHeap) (cid : ℕ) :
    (s.freeSessionIfExhausted cid).log = s.log := by
  unfold freeSessionIfExhausted
  split
  · split <;> rfl
  · rfl

theorem ended_mem_parseSession (client : ℕ) (append : Option Bool) (hended : s.isEnded sid = true) :
    .ended false ∈ (s.parseSession client (.session sid) append).2.log := by
  have hget : .ended false ∈ ((s.logEnded false).callWith .getClient (s.clientSession sid)).log :=
    List.mem_cons_of_mem _ List.mem_cons_self
  simp only [parseSession,noteEnded,hended,if_true]
  split
  · exact hget
  · cases append with
    | none => exact hget
    | some appended => exact List.mem_cons_of_mem _ hget

theorem ended_mem_execute {x : Execution} (hreads : x.readsSession = true)
    (hx : x.option = .session sid) (hended : s.isEnded sid = true) (ht : s.execute x = some t) :
    .ended false ∈ t.log := by
  unfold execute at ht
  split at ht
  · rw [Option.some.injEq] at ht
    subst ht
    cases hm : x.ofManager with
    | false =>
      have hstop : x.stop ≠ some .beforeSession := by
        simpa [Execution.readsSession,hm] using hreads
      exact log_phongoExecute s x hstop (hx ▸ ended_mem_parseSession _ _ hended)
    | true =>
      have hprepared := log_prepareExecute s x (hx ▸ ended_mem_parseSession x.client none hended)
      simp only [if_true]
      split
      · exact subset_phongoExecute _ x hprepared
      · exact hprepared
  · cases ht

theorem callWith_of_ended (h : s.Owned) (function : SessionFunction)
    (hended : s.isEnded sid = true) :
    .call function (some (sid + 1)) false ∈ (s.callWith function (some (sid + 1))).log := by
  have hdead : ((some (sid + 1)).any fun r => decide (r ∈ s.live)) = false :=
    decide_eq_false (h.notMem_of_ended hended)
  rw [SessionHeap.callWith,hdead]
  exact List.mem_cons_self

theorem getMore_mem_mongocNext (h : s.Owned) (cid : ℕ) (cursor : SessionCursor) (hasId : Bool)
    (hid : cursor.hasId = true) (hc : Paired cursor.session cursor.mongocSession)
    (hsid : cursor.session = some sid) (hended : s.isEnded sid = true) :
    .call .getMore (some (sid + 1)) false ∈ (s.mongocNext cid cursor true hasId).log := by
  rw [hsid] at hc
  have hr : cursor.mongocSession = some (sid + 1) := hc
  simp only [mongocNext,hid,hr,Bool.and_self,if_true]
  exact callWith_of_ended h .getMore hended

theorem killCursors_mem_destroyCursor (h : s.Owned) {mongocSession : Option ℕ}
    (hc : Paired (some sid) mongocSession) (hended : s.isEnded sid = true) :
    .call .killCursors (some (sid + 1)) false ∈ (s.destroyCursor mongocSession true).log := by
  have hr : mongocSession = some (sid + 1) := hc
  subst hr
  exact callWith_of_ended h .killCursors hended

theorem freed_mem_free (h : s.Owned) (hended : s.isEnded sid = true) :
    .freed (sid + 1) false ∈ (s.free (sid + 1)).log := by
  have hdead : decide (sid + 1 ∈ s.live) = false := decide_eq_false (h.notMem_of_ended hended)
  rw [SessionHeap.free,hdead]
  exact List.mem_cons_self

theorem not_isSafe_null {function : SessionFunction} {live : Bool} :
    ¬ (SessionEvent.call function none live).IsSafe := fun hs => by cases hs.1

theorem not_isSafe_dead {function : SessionFunction} {session : Option ℕ} :
    ¬ (SessionEvent.call function session false).IsSafe := fun hs => by cases hs.2

theorem not_isSafe_freed {session : ℕ} : ¬ (SessionEvent.freed session false).IsSafe :=
  fun hs => by cases hs

theorem not_isSafe_ended : ¬ (SessionEvent.ended false).IsSafe := by decide

theorem unsafe_callWith (s : SessionHeap) (function : SessionFunction)
    (hended : ¬ s.isEnded sid = false) :
    ∃ event ∈ (s.callWith function (s.clientSession sid)).log, ¬ event.IsSafe := by
  have hnone : s.clientSession sid = none := by simpa [isEnded] using hended
  rw [hnone]
  exact ⟨_,List.mem_cons_self,not_isSafe_null⟩

/-- What a frame does with its session, once the server has answered, is unsafe if the session was
ended meanwhile. -/
theorem unsafe_resume (h : s.Owned) {reply : SessionReply}
    (hallowed : ¬ s.Allowed (.resume reply)) (ht : s.resume reply = some t) :
    ∃ event ∈ t.log, ¬ event.IsSafe := by
  simp only [Allowed] at hallowed
  split at hallowed
  · rename_i hf
    have hr := h.frame _ (hf ▸ List.mem_cons_self)
    obtain rfl : _ = _ + 1 := hr
    have hd := h.dropFrame hf
    simp only [SessionHeap.resume,hf,Option.some.injEq] at ht
    subst ht
    exact ⟨_,freed_mem_free hd (eq_true_of_ne_false hallowed),not_isSafe_freed⟩
  · rename_i hf
    have hr := h.frame _ (hf ▸ List.mem_cons_self)
    obtain rfl : _ = _ + 1 := hr
    have hd := h.dropFrame hf
    simp only [SessionHeap.resume,hf,Option.some.injEq] at ht
    subst ht
    exact ⟨_,freed_mem_free hd (eq_true_of_ne_false hallowed),not_isSafe_freed⟩
  · rename_i hf
    have hpaired := h.frame _ (hf ▸ List.mem_cons_self)
    have hd := h.dropFrame hf
    simp only [SessionHeap.resume,hf,Option.some.injEq] at ht
    subst ht
    exact ⟨_,killCursors_mem_destroyCursor hd hpaired (eq_true_of_ne_false hallowed),
      not_isSafe_dead⟩
  · rename_i hf
    simp only [SessionHeap.resume,hf,Option.some.injEq] at ht
    subst ht
    exact unsafe_callWith _ (.accessor _) hallowed
  · rename_i hf
    simp only [SessionHeap.resume,hf,Option.some.injEq] at ht
    subst ht
    exact unsafe_callWith _ .append hallowed
  · rename_i hf
    simp only [SessionHeap.resume,hf,Option.some.injEq] at ht
    subst ht
    exact unsafe_callWith _ .append hallowed
  · exact absurd trivial hallowed

/-- The condition is exact: a step that does not meet it does what it is there to prevent. -/
theorem Owned.unsafe_of_not_allowed (h : s.Owned) {op : SessionOp} (hallowed : ¬ s.Allowed op)
    (ht : s.run op = some t) : ∃ event ∈ t.log, ¬ event.IsSafe := by
  cases op with
  | startSession | callMethod | freeSession => exact absurd trivial hallowed
  | endSession sid aborts =>
    obtain ⟨o,ho,rfl⟩ := Option.map_eq_some_iff.mp ht
    have hnone : o.clientSession = none := by
      simpa [Allowed,isEnded,clientSession,ho] using hallowed
    refine ⟨.ended false,?_,not_isSafe_ended⟩
    simp [hnone,SessionHeap.callWith,logEnded]
  | execute x =>
    simp only [Allowed,OptionAllowed,Classical.not_imp,not_forall,Bool.not_eq_false] at hallowed
    obtain ⟨hreads,sid,hx,hended⟩ := hallowed
    exact ⟨.ended false,ended_mem_execute hreads hx hended ht,not_isSafe_ended⟩
  | resume reply => exact unsafe_resume h hallowed ht
  | next cid getMore hasId =>
    obtain ⟨cursor,hcid,rfl⟩ := Option.map_eq_some_iff.mp ht
    simp only [Allowed,SendAllowed,not_forall,Bool.not_eq_false] at hallowed
    obtain ⟨cursor',sid,hcid',rfl,hid,hsid,hended⟩ := hallowed
    obtain rfl := Option.some.inj (hcid.symm.trans hcid')
    refine ⟨.call .getMore (some (sid + 1)) false,?_,not_isSafe_dead⟩
    rw [log_freeSessionIfExhausted]
    exact getMore_mem_mongocNext h cid _ hasId (by simpa using hid)
      (by simpa using h.cursor cid cursor hcid hid) (by simpa using hsid) hended
  | rewind cid getMore hasId error =>
    obtain ⟨cursor,hcid,rfl⟩ := Option.map_eq_some_iff.mp ht
    simp only [Allowed,SendAllowed,not_forall,Bool.not_eq_false] at hallowed
    obtain ⟨cursor',sid,hcid',hsent,hid,hsid,hended⟩ := hallowed
    obtain rfl := Option.some.inj (hcid.symm.trans hcid')
    simp only [notAdvanced,hcid,Option.any_some,Bool.and_eq_true,Bool.not_eq_true'] at hsent
    obtain ⟨rfl,hadvanced⟩ := hsent
    have hmem := getMore_mem_mongocNext h cid { cursor with advanced := true } hasId hid
      (h.cursor cid cursor hcid hid) hsid hended
    refine ⟨.call .getMore (some (sid + 1)) false,?_,not_isSafe_dead⟩
    simp only [hadvanced,Bool.false_eq_true,if_false]
    split
    · exact hmem
    · split
      · exact hmem
      · rw [log_freeSessionIfExhausted]
        exact hmem
  | freeCursor cid samePid =>
    obtain ⟨cursor,hcid,rfl⟩ := Option.map_eq_some_iff.mp ht
    simp only [Allowed,SendAllowed,not_forall,Bool.not_eq_false] at hallowed
    obtain ⟨cursor',sid,hcid',rfl,hid,hsid,hended⟩ := hallowed
    obtain rfl := Option.some.inj (hcid.symm.trans hcid')
    have hpaired := h.cursor cid cursor hcid hid
    rw [hsid] at hpaired
    have hmem := killCursors_mem_destroyCursor h hpaired hended
    refine ⟨.call .killCursors (some (sid + 1)) false,?_,not_isSafe_dead⟩
    rw [hid,Bool.and_self]
    exact hmem

end

end SessionHeap

/-- Over every run of allowed steps, libmongoc is given live client sessions only and an
operation on an ended Session throws; the first step that is not allowed ends this. -/
theorem sessions_safe_iff {s : SessionHeap}
    (h : Reaches SessionHeap.Step SessionHeap.Allowed SessionHeap.init s) :
    (∀ event ∈ s.log, event.IsSafe) ∧ ∀ op t, s.Step op t →
      ((∀ event ∈ t.log, event.IsSafe) ↔ s.Allowed op) := by
  have howned : s.Owned := h.invariant (I:=SessionHeap.Owned)
    (fun _ op _ hs hallowed hstep => hs.step op hallowed hstep) SessionHeap.init_owned
  refine ⟨howned.log,fun op t hstep => ⟨fun hsafe => ?_,fun hallowed =>
    (howned.step op hallowed hstep).log⟩⟩
  by_contra hallowed
  obtain ⟨event,hevent,hnot⟩ := howned.unsafe_of_not_allowed hallowed hstep.2
  exact hnot (hsafe event hevent)

/-- A query whose cursor fetches a batch and is destroyed with an id, and the end of its session,
which aborts a transaction. -/
theorem sessions_safe_iff_query : ∃ s : SessionHeap, s.log.length = 9 ∧
    (∀ event ∈ s.log, event.IsSafe) ∧ ∀ op t, s.Step op t →
      ((∀ event ∈ t.log, event.IsSafe) ↔ s.Allowed op) := by
  let x : Execution := ⟨true,7,.session 0,.query,false,false,false,none⟩
  obtain ⟨s₁,h₁⟩ : ∃ s, SessionHeap.init.run (.startSession 7 true) = some s := ⟨_,rfl⟩
  obtain ⟨s₂,h₂⟩ : ∃ s, s₁.run (.execute x) = some s := by
    cases h₁; exact ⟨_,rfl⟩
  obtain ⟨s₃,h₃⟩ : ∃ s, s₂.run (.resume (.succeeded true true)) = some s := by
    cases h₁; cases h₂; exact ⟨_,rfl⟩
  obtain ⟨s₄,h₄⟩ : ∃ s, s₃.run (.next 2 true true) = some s := by
    cases h₁; cases h₂; cases h₃; exact ⟨_,rfl⟩
  obtain ⟨s₅,h₅⟩ : ∃ s, s₄.run (.freeCursor 2 true) = some s := by
    cases h₁; cases h₂; cases h₃; cases h₄; exact ⟨_,rfl⟩
  obtain ⟨s₆,h₆⟩ : ∃ s, s₅.run (.endSession 0 true) = some s := by
    cases h₁; cases h₂; cases h₃; cases h₄; cases h₅; exact ⟨_,rfl⟩
  obtain ⟨s₇,h₇⟩ : ∃ s, s₆.run (.resume (.succeeded false false)) = some s := by
    cases h₁; cases h₂; cases h₃; cases h₄; cases h₅; cases h₆; exact ⟨_,rfl⟩
  have hreach : Reaches SessionHeap.Step SessionHeap.Allowed SessionHeap.init s₇ := by
    refine ((((((Reaches.refl.tail (.startSession 7 true) trivial ⟨trivial,h₁⟩).tail (.execute x) ?_
      ⟨?_,h₂⟩).tail (.resume (.succeeded true true)) ?_ ⟨trivial,h₃⟩).tail
      (.next 2 true true) ?_ ⟨trivial,h₄⟩).tail (.freeCursor 2 true) ?_ ⟨trivial,h₅⟩).tail
      (.endSession 0 true) ?_ ⟨?_,h₆⟩).tail (.resume (.succeeded false false)) ?_ ⟨trivial,h₇⟩
    · cases h₁
      rintro - sid h
      cases h; rfl
    · cases h₁; cases h₂; trivial
    · cases h₁; cases h₂; cases h₃
      intro cursor sid hc _ _ hs
      cases hc; cases hs; rfl
    · cases h₁; cases h₂; cases h₃; cases h₄
      intro cursor sid hc _ _ hs
      cases hc; cases hs; rfl
    · cases h₁; cases h₂; cases h₃; cases h₄; cases h₅; rfl
    · cases h₁; cases h₂; cases h₃; cases h₄; cases h₅; cases h₆; rfl
    · cases h₁
      rintro sid - ⟨r,hr⟩
      cases hr
    · cases h₁; cases h₂; cases h₃; cases h₄; cases h₅
      rintro ⟨r,hr⟩
      cases hr
  refine ⟨s₇,?_,sessions_safe_iff hreach⟩
  cases h₁; cases h₂; cases h₃; cases h₄; cases h₅; cases h₆; cases h₇
  rfl

/-- An ended Session that is given as an option leads to a call with NULL. -/
theorem sessions_not_safe :
    ¬ ∀ s, Reaches SessionHeap.Step always SessionHeap.init s → ∀ event ∈ s.log, event.IsSafe := by
  intro h
  let x : Execution := ⟨true,7,.session 0,.query,false,false,false,none⟩
  obtain ⟨s₁,h₁⟩ : ∃ s, SessionHeap.init.run (.startSession 7 true) = some s := ⟨_,rfl⟩
  obtain ⟨s₂,h₂⟩ : ∃ s, s₁.run (.endSession 0 false) = some s := by
    cases h₁; exact ⟨_,rfl⟩
  obtain ⟨s₃,h₃⟩ : ∃ s, s₂.run (.execute x) = some s := by
    cases h₁; cases h₂; exact ⟨_,rfl⟩
  have hreach : Reaches SessionHeap.Step always SessionHeap.init s₃ := by
    refine ((Reaches.refl.tail (.startSession 7 true) trivial ⟨trivial,h₁⟩).tail
      (.endSession 0 false) trivial ⟨?_,h₂⟩).tail (.execute x) trivial ⟨?_,h₃⟩
    · cases h₁; cases h₂
      rintro sid - ⟨r,hr⟩
      cases hr
    · cases h₁
      rintro ⟨r,hr⟩
      cases hr
  have hsafe := h s₃ hreach (.call .getClient none false)
  cases h₁; cases h₂; cases h₃
  have hnot := hsafe (by decide)
  exact absurd hnot (by decide)

end Phongo
