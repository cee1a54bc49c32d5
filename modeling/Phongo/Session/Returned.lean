import Mathlib.Data.List.Nodup
import Mathlib.Tactic.Common
import Phongo.Lib.Run
import Phongo.Session.Heap

/-! What becomes of client sessions, whatever userland code does with the objects it has.
A step starts a client session for a new Session object, or takes one away from its object and
destroys it, or does neither. -/
namespace Phongo
open Transition

def SessionEvent.destroyed : SessionEvent → Option ℕ
  | .freed session _ => some session
  | _ => none

/-- The Session and the client session that a frame is about to destroy. -/
def SessionFrame.destroys : SessionFrame → Option (ℕ × ℕ)
  | .endSession sid r | .freeSession sid r => some (sid,r)
  | _ => none

namespace SessionHeap

/-- The client sessions that `mongoc_client_session_destroy` has freed. -/
def destroyed (s : SessionHeap) : List ℕ := s.log.filterMap SessionEvent.destroyed

def destroying (s : SessionHeap) : List (ℕ × ℕ) := s.frames.filterMap SessionFrame.destroys

/-- No subscriber that is told of the abort of a transaction in `endSession` ends that Session
once more. -/
def Proper (s : SessionHeap) : SessionOp → Prop
  | .endSession sid _ => ∀ p ∈ s.destroying, p.1 ≠ sid
  | _ => True

section
variable {s t u : SessionHeap} {sid : ℕ}

/-- The step leaves the Session objects and their client sessions alone. -/
structure Spares (s t : SessionHeap) : Prop where
  sessions : t.sessions = s.sessions
  live : t.live = s.live
  destroyed : t.destroyed = s.destroyed
  destroying : t.destroying = s.destroying
  fresh : s.fresh ≤ t.fresh
  cursors : ∀ cid, (t.cursors cid).isSome = true → (s.cursors cid).isSome = true ∨ cid < t.fresh

namespace Spares

theorem refl (s : SessionHeap) : Spares s s := ⟨rfl,rfl,rfl,rfl,Nat.le_refl _,fun _ => Or.inl⟩

theorem trans (h : Spares s t) (h' : Spares t u) : Spares s u where
  sessions := h'.sessions.trans h.sessions
  live := h'.live.trans h.live
  destroyed := h'.destroyed.trans h.destroyed
  destroying := h'.destroying.trans h.destroying
  fresh := Nat.le_trans h.fresh h'.fresh
  cursors cid hu := by
    rcases h'.cursors cid hu with ht | ht
    · rcases h.cursors cid ht with hs | hs
      · exact .inl hs
      · exact .inr (Nat.lt_of_lt_of_le hs h'.fresh)
    · exact .inr ht

theorem callWith (s : SessionHeap) (f : SessionFunction) (session : Option ℕ) :
    Spares s (s.callWith f session) := ⟨rfl,rfl,rfl,rfl,Nat.le_refl _,fun _ => Or.inl⟩

theorem logEnded (s : SessionHeap) (threw : Bool) : Spares s (s.logEnded threw) :=
  ⟨rfl,rfl,rfl,rfl,Nat.le_refl _,fun _ => Or.inl⟩

theorem push (s : SessionHeap) {frame : SessionFrame} (hf : frame.destroys = none) :
    Spares s (s.push frame) := by
  refine ⟨rfl,rfl,rfl,?_,Nat.le_refl _,fun _ => Or.inl⟩
  simp [SessionHeap.destroying,SessionHeap.push,hf]

theorem noteEnded (s : SessionHeap) (sid : ℕ) : Spares s (s.noteEnded sid) := by
  unfold SessionHeap.noteEnded
  split
  · exact logEnded s false
  · exact refl s

theorem dropFrame {frame : SessionFrame} {frames : List SessionFrame}
    (hframes : s.frames = frame::frames) (hf : frame.destroys = none) :
    Spares s { s with frames := frames } := by
  refine ⟨rfl,rfl,rfl,?_,Nat.le_refl _,fun _ => Or.inl⟩
  simp [SessionHeap.destroying,hframes,hf]

theorem destroyCursor (s : SessionHeap) (mongocSession : Option ℕ) (hasId : Bool) :
    Spares s (s.destroyCursor mongocSession hasId) := by
  rcases s.destroyCursor_eq mongocSession hasId with h | ⟨r,h⟩
  · rw [h]
    exact refl s
  · rw [h]
    exact callWith s .killCursors (some r)

theorem updateCursor (s : SessionHeap) (cid : ℕ) (cursor : Option SessionCursor) (n : ℕ)
    (hcid : (s.cursors cid).isSome = true ∨ cursor = none ∨ cid < s.fresh + n) :
    Spares s { s with cursors := Function.update s.cursors cid cursor, fresh := s.fresh + n } := by
  refine ⟨rfl,rfl,rfl,rfl,Nat.le_add_right _ _,fun cid' hc => ?_⟩
  by_cases heq : cid' = cid
  · subst heq
    rcases hcid with hcid | rfl | hcid
    · exact .inl hcid
    · simp at hc
    · exact .inr hcid
  · exact .inl (by simpa [Function.update_of_ne heq] using hc)

theorem newCursor (s : SessionHeap) (cursor : SessionCursor) : Spares s (s.newCursor cursor) :=
  updateCursor s s.fresh (some cursor) 1 (.inr (.inr (Nat.lt_succ_self _)))

theorem parseSession (s : SessionHeap) (client : ℕ) (option : SessionOption)
    (append : Option Bool) : Spares s (s.parseSession client option append).2 := by
  cases option with
  | absent => exact refl s
  | invalid => exact refl s
  | session sid =>
    have hget : Spares s ((s.noteEnded sid).callWith .getClient (s.clientSession sid)) :=
      (noteEnded s sid).trans (callWith _ _ _)
    unfold SessionHeap.parseSession
    dsimp only
    split
    · exact hget
    · cases append with
      | none => exact hget
      | some appended => exact hget.trans (callWith _ _ _)

theorem prepareExecute (s : SessionHeap) (x : Execution) : Spares s (s.prepareExecute x).2 := by
  have hparsed := parseSession s x.client x.option none
  have hselected : ∀ s : SessionHeap, Spares s (s.selectServer x).2 := fun s => by
    unfold SessionHeap.selectServer
    cases x.option with
    | absent => exact refl s
    | invalid => exact refl s
    | session sid =>
      have hget := callWith s .getServerId (s.clientSession sid)
      dsimp only
      split
      · exact hget.trans (callWith _ _ _)
      · exact hget
  unfold SessionHeap.prepareExecute
  dsimp only
  split
  · exact hparsed
  · exact hparsed.trans (hselected _)

theorem sendQuery (s : SessionHeap) (x : Execution) : Spares s (s.sendQuery x) := by
  unfold SessionHeap.sendQuery
  cases x.option with
  | absent => exact push s rfl
  | invalid => exact push s rfl
  | session sid => exact (callWith s .find _).trans (push _ rfl)

theorem sendBulkWrite (s : SessionHeap) (x : Execution) : Spares s (s.sendBulkWrite x) := by
  unfold SessionHeap.sendBulkWrite
  cases x.option with
  | absent => exact push s rfl
  | invalid => exact push s rfl
  | session sid =>
    dsimp only
    split
    · exact refl s
    · exact (callWith s .setClientSession _).trans (push _ rfl)

theorem freeSessionIfExhausted (s : SessionHeap) (cid : ℕ) :
    Spares s (s.freeSessionIfExhausted cid) := by
  unfold SessionHeap.freeSessionIfExhausted
  split
  · rename_i hcid
    split
    · exact refl s
    · exact updateCursor s cid _ 0 (.inl (by rw [hcid]; rfl))
  · exact refl s

theorem mongocNext (s : SessionHeap) {cid : ℕ} {old : SessionCursor}
    (hcid : s.cursors cid = some old) (cursor : SessionCursor) (getMore hasId : Bool) :
    Spares s (s.mongocNext cid cursor getMore hasId) := by
  have hstored : ∀ t : SessionHeap, t.cursors = s.cursors → ∀ c : SessionCursor,
      Spares t { t with cursors := Function.update t.cursors cid (some c) } := fun t ht c =>
    updateCursor t cid (some c) 0 (.inl (by rw [ht,hcid]; rfl))
  unfold SessionHeap.mongocNext
  dsimp only
  split
  · cases cursor.mongocSession with
    | none => exact hstored s rfl _
    | some r =>
      have hsent := callWith s .getMore (some r)
      exact hsent.trans (hstored (s.callWith .getMore (some r)) rfl _)
  · exact hstored s rfl _

end Spares

/-- What a step may do to the Session objects and their client sessions. -/
inductive Moves (s t : SessionHeap) : Prop
  | spares (h : Spares s t)
  | starts (sid client : ℕ) (hnew : s.fresh ≤ sid) (hfresh : sid + 2 ≤ t.fresh)
      (hsessions : t.sessions = Function.update s.sessions sid (some ⟨some (sid + 1),client⟩))
      (hlive : t.live = (sid + 1)::s.live) (hdestroyed : t.destroyed = s.destroyed)
      (hdestroying : t.destroying = s.destroying)
      (hcursors : ∀ cid, (t.cursors cid).isSome = true →
        (s.cursors cid).isSome = true ∨ cid < t.fresh)
  | begins (sid r : ℕ) (u : SessionHeap) (frame : SessionFrame) (h : Spares s u)
      (hr : s.clientSession sid = some r) (hnot : ∀ p ∈ s.destroying, p.1 ≠ sid)
      (hframe : frame.destroys = some (sid,r)) (ht : t = u.push frame)
  | drops (sid : ℕ) (o : Session) (o' : Option Session) (ho : s.sessions sid = some o)
      (ho' : o'.bind (·.clientSession) = none)
      (hsessions : t.sessions = Function.update s.sessions sid o')
      (hlive : t.live = s.live.filter fun r => some r ≠ o.clientSession)
      (hdestroyed : t.destroyed = o.clientSession.toList ++ s.destroyed)
      (hsub : t.destroying.Sublist s.destroying) (hnot : ∀ p ∈ t.destroying, p.1 ≠ sid)
      (hfresh : t.fresh = s.fresh) (hcursors : t.cursors = s.cursors)

theorem moves_newSession (h : Spares s t) (client : ℕ) (h' : Spares (t.newSession client) u) :
    Moves s u := by
  refine .starts t.fresh client h.fresh h'.fresh ?_ ?_ ?_ ?_ fun cid hu => ?_
  · rw [h'.sessions,← h.sessions]
    rfl
  · rw [h'.live,← h.live]
    rfl
  · rw [h'.destroyed,← h.destroyed]
    rfl
  · rw [h'.destroying,← h.destroying]
    rfl
  · rcases h'.cursors cid hu with ht | ht
    · rcases h.cursors cid ht with hs | hs
      · exact .inl hs
      · have hle := h'.fresh
        simp only [newSession] at hle
        exact .inr (by omega)
    · exact .inr ht

/-- What is sent starts a session only where none is given. -/
theorem moves_sendCommand (h : Spares s t) (x : Execution) : Moves s (t.sendCommand x) := by
  have himplicit : Moves s (if x.unacknowledgedWriteConcern || !x.implicitSession then
      t.push (.command none)
      else
        let sid := t.fresh
        let t := t.newSession x.client
        let t := t.callWith .append (t.clientSession sid)
        if x.stop = some .afterImplicitSession then t
        else (t.callWith .command (t.clientSession sid)).push (.command (some sid))) := by
    split
    · exact .spares (h.trans (.push t rfl))
    · have happend := Spares.callWith (t.newSession x.client) .append
        ((t.newSession x.client).clientSession t.fresh)
      dsimp only
      split
      · exact moves_newSession h x.client happend
      · exact moves_newSession h x.client
          (happend.trans ((Spares.callWith _ _ _).trans (.push _ rfl)))
  unfold sendCommand
  cases x.option with
  | absent => exact himplicit
  | invalid => exact himplicit
  | session sid =>
    dsimp only
    split
    · exact .spares h
    · exact .spares (h.trans ((Spares.callWith t _ _).trans (.push _ rfl)))

theorem moves_phongoExecute (h : Spares s t) (x : Execution) : Moves s (t.phongoExecute x) := by
  unfold phongoExecute
  split
  · exact .spares h
  · have hparsed := h.trans (Spares.parseSession t x.client x.option x.append)
    dsimp only
    split
    · exact .spares hparsed
    · cases x.kind with
      | command => exact moves_sendCommand hparsed x
      | query => exact .spares (hparsed.trans (.sendQuery _ x))
      | bulkWrite => exact .spares (hparsed.trans (.sendBulkWrite _ x))

/-- The client sessions not yet destroyed are those of the Session objects not ended, each of
which is destroyed once only. -/
structure Accounted (s : SessionHeap) : Prop where
  held : ∀ sid r, s.clientSession sid = some r → r = sid + 1 ∧ r ∈ s.live
  holder : ∀ r ∈ s.live, ∃ sid, s.clientSession sid = some r
  nodup : (s.live ++ s.destroyed).Nodup
  ending : ∀ p ∈ s.destroying, s.clientSession p.1 = some p.2
  once : (s.destroying.map Prod.fst).Nodup
  sessionFresh : ∀ sid, (s.sessions sid).isSome = true → sid < s.fresh
  clientFresh : ∀ r ∈ s.live ++ s.destroyed, r ≤ s.fresh
  cursorFresh : ∀ cid, (s.cursors cid).isSome = true → cid < s.fresh

theorem init_accounted : init.Accounted where
  held _ _ h := by cases h
  holder _ h := by cases h
  nodup := List.nodup_nil
  ending _ h := by cases h
  once := List.nodup_nil
  sessionFresh _ h := by cases h
  clientFresh _ h := by cases h
  cursorFresh _ h := by cases h

/-- A client session is freed with its object's hold on it. -/
theorem moves_free {o : Session} (ho : s.sessions sid = some o) {r : ℕ}
    (hr : o.clientSession = some r) (o' : Option Session)
    (ho' : o'.bind (·.clientSession) = none) (hlive : t.live = s.live)
    (hdestroyed : t.destroyed = s.destroyed) (hsub : t.destroying.Sublist s.destroying)
    (hnot : ∀ p ∈ t.destroying, p.1 ≠ sid) (hfresh : t.fresh = s.fresh)
    (hcursors : t.cursors = s.cursors) :
    Moves s { t.free r with sessions := Function.update s.sessions sid o' } := by
  refine .drops sid o o' ho ho' rfl ?_ ?_ hsub hnot hfresh hcursors
  · rw [← hlive,hr]
    simp [SessionHeap.free]
  · rw [← hdestroyed,hr]
    rfl

/-- What waits goes on, at the end of a destruction with its own Session. -/
theorem moves_resume (h : s.Accounted) {reply : SessionReply} (ht : s.resume reply = some t) :
    Moves s t := by
  have hfinish : ∀ {frame : SessionFrame} {frames : List SessionFrame} {sid r : ℕ},
      s.frames = frame::frames → frame.destroys = some (sid,r) → ∀ o' : Option Session,
      o'.bind (·.clientSession) = none → Moves s { ({ s with frames := frames }).free r with
        sessions := Function.update s.sessions sid o' } := by
    intro frame frames sid r hf hframe o' ho'
    have hdestroying : s.destroying = (sid,r)::frames.filterMap SessionFrame.destroys := by
      simp [destroying,hf,hframe]
    have hr := h.ending (sid,r) (by rw [hdestroying]; exact List.mem_cons_self)
    obtain ⟨o,ho,hor⟩ := Option.bind_eq_some_iff.mp hr
    have honce := h.once
    rw [hdestroying,List.map_cons,List.nodup_cons] at honce
    refine moves_free (t:={ s with frames := frames }) ho hor o' ho' rfl rfl ?_ ?_ rfl rfl
    · rw [hdestroying]
      exact List.sublist_cons_self _ _
    · exact fun p hp heq => honce.1 (heq ▸ List.mem_map_of_mem hp)
  unfold resume at ht
  split at ht
  · cases ht
  · rename_i frame frames hf
    have hd := fun hn => Spares.dropFrame (s:=s) hf hn
    rw [Option.some.injEq] at ht
    subst ht
    split
    · exact hfinish hf rfl _ (by cases s.sessions _ <;> rfl)
    · exact hfinish hf rfl none rfl
    · exact .spares ((hd rfl).trans (.destroyCursor _ _ _))
    · rename_i hend hfree _
      refine .spares (hd ?_)
      cases frame with
      | endSession sid r => exact absurd rfl (hend _ _)
      | freeSession sid r => exact absurd rfl (hfree _ _)
      | _ => rfl
    · exact .spares ((hd rfl).trans (.callWith _ _ _))
    · rename_i hend hfree _
      refine .spares (hd ?_)
      cases frame with
      | endSession sid r => exact absurd rfl (hend _ _)
      | freeSession sid r => exact absurd rfl (hfree _ _)
      | _ => rfl
    · exact .spares ((hd rfl).trans (.callWith _ _ _))
    · exact .spares (hd rfl)
    · exact .spares ((hd rfl).trans (.newCursor _ _))
    · exact .spares ((hd rfl).trans ((Spares.callWith _ _ _).trans (.newCursor _ _)))
    · exact .spares ((hd rfl).trans (.newCursor _ _))
    · exact .spares ((hd rfl).trans (.newCursor _ _))

theorem notMem_destroying_of_unreferenced (h : s.Unreferenced sid) :
    ∀ p ∈ s.destroying, p.1 ≠ sid := by
  intro p hp heq
  obtain ⟨frame,hm,hframe⟩ := List.mem_filterMap.mp hp
  refine h.2 frame hm ?_
  cases frame with
  | endSession sid' r => cases hframe; exact congrArg some heq
  | freeSession sid' r => cases hframe; exact congrArg some heq
  | _ => cases hframe

theorem moves_run (h : s.Accounted) {op : SessionOp} (henabled : s.Enabled op)
    (hproper : s.Proper op) (ht : s.run op = some t) : Moves s t := by
  cases op with
  | startSession client started =>
    simp only [run,Option.some.injEq] at ht
    subst ht
    unfold startSession
    split
    · exact moves_newSession (.refl s) client (.refl _)
    · exact .spares (.refl s)
  | endSession sid aborts =>
    obtain ⟨o,ho,rfl⟩ := Option.map_eq_some_iff.mp ht
    have hcalled := fun session => Spares.callWith s .destroy session
    cases hr : o.clientSession with
    | none => exact .spares ((Spares.logEnded s false).trans (.callWith _ _ _))
    | some r =>
      have hown : s.clientSession sid = some r := by simp [clientSession,ho,hr]
      cases aborts with
      | true => exact .begins sid r _ (.endSession sid r) (hcalled _) hown hproper rfl rfl
      | false =>
        exact moves_free (t:=s.callWith .destroy (some r)) ho hr _
          (by simp [SessionHeap.callWith,ho]) rfl rfl (List.Sublist.refl _) hproper rfl rfl
  | callMethod m sid =>
    obtain ⟨o,ho,rfl⟩ := Option.map_eq_some_iff.mp ht
    cases o.clientSession with
    | none => exact .spares (.logEnded s true)
    | some r =>
      dsimp only
      split
      · exact .spares (.push s rfl)
      · exact .spares (.callWith s _ _)
  | execute x =>
    simp only [run,execute] at ht
    split at ht
    · rw [Option.some.injEq] at ht
      subst ht
      cases x.ofManager with
      | false => exact moves_phongoExecute (.refl s) x
      | true =>
        simp only [if_true]
        split
        · exact moves_phongoExecute (.prepareExecute s x) x
        · exact .spares (.prepareExecute s x)
    · cases ht
  | resume reply => exact moves_resume h ht
  | next cid getMore hasId =>
    obtain ⟨cursor,hcid,rfl⟩ := Option.map_eq_some_iff.mp ht
    exact .spares ((Spares.mongocNext s hcid _ _ _).trans (.freeSessionIfExhausted _ cid))
  | rewind cid getMore hasId error =>
    obtain ⟨cursor,hcid,rfl⟩ := Option.map_eq_some_iff.mp ht
    have hnext := Spares.mongocNext s hcid { cursor with advanced := true } getMore hasId
    split
    · split
      · exact .spares (.refl s)
      · exact .spares (.freeSessionIfExhausted s cid)
    · dsimp only
      split
      · exact .spares hnext
      · split
        · exact .spares hnext
        · exact .spares (hnext.trans (.freeSessionIfExhausted _ cid))
  | freeSession sid aborts =>
    obtain ⟨o,ho,rfl⟩ := Option.map_eq_some_iff.mp ht
    have hnot := notMem_destroying_of_unreferenced henabled
    cases hr : o.clientSession with
    | none =>
      have hlive : s.live.filter (fun r => some r ≠ o.clientSession) = s.live := by simp [hr]
      exact .drops sid o none ho rfl rfl hlive.symm (by rw [hr]; rfl) (List.Sublist.refl _) hnot
        rfl rfl
    | some r =>
      have hown : s.clientSession sid = some r := by simp [clientSession,ho,hr]
      cases aborts with
      | true =>
        exact .begins sid r _ (.freeSession sid r) (.callWith s .destroy (some r)) hown hnot rfl rfl
      | false =>
        exact moves_free (t:=s.callWith .destroy (some r)) ho hr none rfl rfl rfl
          (List.Sublist.refl _) hnot rfl rfl
  | freeCursor cid samePid =>
    obtain ⟨cursor,hcid,rfl⟩ := Option.map_eq_some_iff.mp ht
    have hsent := Spares.destroyCursor s cursor.mongocSession (samePid && cursor.hasId)
    rw [← cursors_destroyCursor s cursor.mongocSession (samePid && cursor.hasId)]
    exact .spares (hsent.trans (.updateCursor _ cid none 0 (.inr (.inl rfl))))

namespace Accounted

theorem cursors_of (h : s.Accounted) (hfresh : s.fresh ≤ t.fresh)
    (hcursors : ∀ cid, (t.cursors cid).isSome = true →
      (s.cursors cid).isSome = true ∨ cid < t.fresh) :
    ∀ cid, (t.cursors cid).isSome = true → cid < t.fresh := fun cid ht => by
  rcases hcursors cid ht with hs | hlt
  · exact Nat.lt_of_lt_of_le (h.cursorFresh cid hs) hfresh
  · exact hlt

theorem spares (h : s.Accounted) (hst : Spares s t) : t.Accounted where
  held sid r hr := by
    rw [clientSession,hst.sessions] at hr
    rw [hst.live]
    exact h.held sid r hr
  holder r hr := by
    rw [hst.live] at hr
    obtain ⟨sid,hsid⟩ := h.holder r hr
    exact ⟨sid,by rw [clientSession,hst.sessions]; exact hsid⟩
  nodup := by
    rw [hst.live,hst.destroyed]
    exact h.nodup
  sessionFresh sid ht := by
    rw [hst.sessions] at ht
    exact Nat.lt_of_lt_of_le (h.sessionFresh sid ht) hst.fresh
  clientFresh r hr := by
    rw [hst.live,hst.destroyed] at hr
    exact Nat.le_trans (h.clientFresh r hr) hst.fresh
  ending p hp := by
    rw [hst.destroying] at hp
    rw [clientSession,hst.sessions]
    exact h.ending p hp
  once := by
    rw [hst.destroying]
    exact h.once
  cursorFresh := h.cursors_of hst.fresh hst.cursors

theorem starts (h : s.Accounted) {client : ℕ} (hnew : s.fresh ≤ sid) (hfresh : sid + 2 ≤ t.fresh)
    (hsessions : t.sessions = Function.update s.sessions sid (some ⟨some (sid + 1),client⟩))
    (hlive : t.live = (sid + 1)::s.live) (hdestroyed : t.destroyed = s.destroyed)
    (hdestroying : t.destroying = s.destroying)
    (hcursors : ∀ cid, (t.cursors cid).isSome = true →
      (s.cursors cid).isSome = true ∨ cid < t.fresh) : t.Accounted := by
  have hself : t.clientSession sid = some (sid + 1) := by simp [clientSession,hsessions]
  have hold : ∀ sid', sid' ≠ sid → t.clientSession sid' = s.clientSession sid' := fun sid' hne => by
    simp [clientSession,hsessions,Function.update_of_ne hne]
  have hbefore : ∀ {sid' r : ℕ}, s.clientSession sid' = some r → sid' ≠ sid := fun {sid' r} hr => by
    obtain ⟨o,ho,-⟩ := Option.bind_eq_some_iff.mp hr
    have hlt := h.sessionFresh sid' (by rw [ho]; rfl)
    omega
  refine ⟨fun sid' r hr => ?_,fun r hr => ?_,?_,fun p hp => ?_,hdestroying ▸ h.once,
    fun sid' ht => ?_,fun r hr => ?_,h.cursors_of (by omega) hcursors⟩
  · by_cases heq : sid' = sid
    · subst heq
      obtain rfl := Option.some.inj (hself.symm.trans hr)
      exact ⟨rfl,by rw [hlive]; exact List.mem_cons_self⟩
    · rw [hold sid' heq] at hr
      obtain ⟨hnumber,hmem⟩ := h.held sid' r hr
      exact ⟨hnumber,by rw [hlive]; exact List.mem_cons_of_mem _ hmem⟩
  · rw [hlive] at hr
    rcases List.mem_cons.mp hr with rfl | hr
    · exact ⟨sid,hself⟩
    · obtain ⟨sid',hsid'⟩ := h.holder r hr
      exact ⟨sid',(hold sid' (hbefore hsid')).trans hsid'⟩
  · rw [hlive,hdestroyed,List.cons_append,List.nodup_cons]
    refine ⟨fun hm => ?_,h.nodup⟩
    have hle := h.clientFresh _ hm
    omega
  · rw [hdestroying] at hp
    have hr := h.ending p hp
    exact (hold p.1 (hbefore hr)).trans hr
  · by_cases heq : sid' = sid
    · omega
    · rw [hsessions,Function.update_of_ne heq] at ht
      have hlt := h.sessionFresh sid' ht
      omega
  · rw [hlive,hdestroyed,List.cons_append] at hr
    rcases List.mem_cons.mp hr with rfl | hr
    · omega
    · have hle := h.clientFresh r hr
      omega

theorem drops (h : s.Accounted) {o : Session} {o' : Option Session} (ho : s.sessions sid = some o)
    (ho' : o'.bind (·.clientSession) = none)
    (hsessions : t.sessions = Function.update s.sessions sid o')
    (hlive : t.live = s.live.filter fun r => some r ≠ o.clientSession)
    (hdestroyed : t.destroyed = o.clientSession.toList ++ s.destroyed)
    (hsub : t.destroying.Sublist s.destroying) (hnot : ∀ p ∈ t.destroying, p.1 ≠ sid)
    (hfresh : t.fresh = s.fresh) (hcursors : t.cursors = s.cursors) : t.Accounted := by
  have hown : s.clientSession sid = o.clientSession := by simp [clientSession,ho]
  have hself : t.clientSession sid = none := by
    rw [clientSession,hsessions,Function.update_self,ho']
  have hold : ∀ sid', sid' ≠ sid → t.clientSession sid' = s.clientSession sid' := fun sid' hne => by
    simp [clientSession,hsessions,Function.update_of_ne hne]
  refine ⟨fun sid' r hr => ?_,fun r hr => ?_,?_,fun p hp => ?_,
    h.once.sublist (hsub.map Prod.fst),fun sid' ht => ?_,fun r hr => ?_,fun cid hc => ?_⟩
  · have hne : sid' ≠ sid := fun heq => by
      rw [heq,hself] at hr
      cases hr
    rw [hold sid' hne] at hr
    obtain ⟨hnumber,hmem⟩ := h.held sid' r hr
    refine ⟨hnumber,?_⟩
    rw [hlive]
    refine List.mem_filter.mpr ⟨hmem,decide_eq_true fun heq => hne ?_⟩
    have hsame := (h.held sid r (hown.trans heq.symm)).1
    omega
  · rw [hlive] at hr
    obtain ⟨hmem,hne⟩ := List.mem_filter.mp hr
    obtain ⟨sid',hsid'⟩ := h.holder r hmem
    have hsid : sid' ≠ sid := fun heq => of_decide_eq_true hne (by rw [← hown,← heq,hsid'])
    exact ⟨sid',(hold sid' hsid).trans hsid'⟩
  · rw [hlive,hdestroyed]
    cases hr : o.clientSession with
    | none => simpa using h.nodup
    | some r =>
      have hmem := (h.held sid r (hown.trans hr)).2
      have hdisjoint := (List.nodup_append.mp h.nodup).2.2
      simp only [Option.toList_some,List.singleton_append,List.nodup_middle,List.nodup_cons]
      constructor
      · intro hm
        rcases List.mem_append.mp hm with hm | hm
        · simp at hm
        · exact hdisjoint r hmem r hm rfl
      · exact h.nodup.sublist (List.filter_sublist.append_right _)
  · exact (hold p.1 (hnot p hp)).trans (h.ending p (hsub.subset hp))
  · rw [hfresh]
    by_cases heq : sid' = sid
    · exact h.sessionFresh sid' (by rw [heq,ho]; rfl)
    · rw [hsessions,Function.update_of_ne heq] at ht
      exact h.sessionFresh sid' ht
  · rw [hlive,hdestroyed] at hr
    rw [hfresh]
    refine h.clientFresh r ?_
    rcases List.mem_append.mp hr with hm | hm
    · exact List.mem_append_left _ (List.mem_filter.mp hm).1
    · rcases List.mem_append.mp hm with hm | hm
      · have heq : o.clientSession = some r := by simpa using hm
        exact List.mem_append_left _ (h.held sid r (hown.trans heq)).2
      · exact List.mem_append_right _ hm
  · rw [hfresh]
    rw [hcursors] at hc
    exact h.cursorFresh cid hc

theorem begins (h : s.Accounted) {r : ℕ} (hr : s.clientSession sid = some r)
    (hnot : ∀ p ∈ s.destroying, p.1 ≠ sid) {frame : SessionFrame}
    (hframe : frame.destroys = some (sid,r)) : (s.push frame).Accounted := by
  have hdestroying : (s.push frame).destroying = (sid,r)::s.destroying := by
    simp [destroying,push,hframe]
  refine { h with ending := fun p hp => ?_, once := ?_ }
  · rw [hdestroying] at hp
    rcases List.mem_cons.mp hp with rfl | hp
    · exact hr
    · exact h.ending p hp
  · rw [hdestroying,List.map_cons,List.nodup_cons]
    refine ⟨fun hm => ?_,h.once⟩
    obtain ⟨p,hp,heq⟩ := List.mem_map.mp hm
    exact hnot p hp heq

theorem moves (h : s.Accounted) (hst : Moves s t) : t.Accounted := by
  cases hst with
  | spares hst => exact h.spares hst
  | starts sid client hnew hfresh hsessions hlive hdestroyed hdestroying hcursors =>
    exact h.starts hnew hfresh hsessions hlive hdestroyed hdestroying hcursors
  | begins sid r u frame hst hr hnot hframe ht =>
    subst ht
    refine (h.spares hst).begins ?_ (hst.destroying ▸ hnot) hframe
    rw [clientSession,hst.sessions]
    exact hr
  | drops sid o o' ho ho' hsessions hlive hdestroyed hsub hnot hfresh hcursors =>
    exact h.drops ho ho' hsessions hlive hdestroyed hsub hnot hfresh hcursors

theorem step (h : s.Accounted) {op : SessionOp} (hproper : s.Proper op) (hstep : s.Step op t) :
    t.Accounted := h.moves (moves_run h hstep.1 hproper hstep.2)

theorem reaches (h : s.Accounted) (ht : Reaches Step Proper s t) : t.Accounted :=
  ht.invariant (I:=Accounted) (fun _ _ _ hs hproper hstep => hs.step hproper hstep) h

/-- Where every Session object is ended or gone, no client session is left. -/
theorem live_eq_nil (h : s.Accounted) (hended : ∀ sid, s.isEnded sid = true) : s.live = [] := by
  refine List.eq_nil_iff_forall_not_mem.mpr fun r hr => ?_
  obtain ⟨sid,hsid⟩ := h.holder r hr
  have hnone := hended sid
  simp [isEnded,hsid] at hnone

end Accounted

/-- A client session is live or was destroyed, from its start on. -/
theorem Moves.keeps (h : Moves s t) : s.live ++ s.destroyed ⊆ t.live ++ t.destroyed := by
  intro r hr
  cases h with
  | spares h => rwa [h.live,h.destroyed]
  | starts sid client hnew hfresh hsessions hlive hdestroyed hdestroying hcursors =>
    rw [hlive,hdestroyed]
    exact List.mem_cons_of_mem _ hr
  | begins sid r u frame h hsid hnot hframe ht =>
    subst ht
    rw [← h.live,← h.destroyed] at hr
    exact hr
  | drops sid o o' ho ho' hsessions hlive hdestroyed hsub hnot hfresh hcursors =>
    rw [hlive,hdestroyed]
    rcases List.mem_append.mp hr with hm | hm
    · by_cases heq : some r = o.clientSession
      · exact List.mem_append_right _ (List.mem_append_left _ (by simp [← heq]))
      · exact List.mem_append_left _ (List.mem_filter.mpr ⟨hm,decide_eq_true heq⟩)
    · exact List.mem_append_right _ (List.mem_append_right _ hm)

theorem Accounted.keeps (h : s.Accounted) (hst : Reaches Step Proper s t) :
    s.live ++ s.destroyed ⊆ t.live ++ t.destroyed := by
  have hboth := hst.invariant
    (I:=fun t => t.Accounted ∧ s.live ++ s.destroyed ⊆ t.live ++ t.destroyed)
    (fun _ _ _ hs hproper hstep => ⟨hs.1.step hproper hstep,
      List.Subset.trans hs.2 (moves_run hs.1 hstep.1 hproper hstep.2).keeps⟩)
    ⟨h,List.Subset.refl _⟩
  exact hboth.2

theorem resume_failed {frame : SessionFrame} {frames : List SessionFrame}
    (hf : s.frames = frame::frames) :
    ∃ t, s.resume (.failed false) = some t ∧ t.frames = frames := by
  simp only [resume,hf,Option.some.injEq,exists_eq_left']
  split <;> first | rfl | exact frames_destroyCursor _ _ _

theorem reaches_unwound (s : SessionHeap) : ∃ t, Reaches Step Proper s t ∧ t.frames = [] := by
  induction hf : s.frames generalizing s with
  | nil => exact ⟨s,.refl,hf⟩
  | cons frame frames ih =>
    obtain ⟨t,ht,hframes⟩ := resume_failed hf
    obtain ⟨u,hu,hnil⟩ := ih t hframes
    exact ⟨u,(Reaches.refl.tail (.resume (.failed false)) trivial ⟨trivial,ht⟩).trans hu,hnil⟩

theorem reaches_freeCursors (s : SessionHeap) (n : ℕ) : ∃ t, Reaches Step Proper s t ∧
    t.frames = s.frames ∧ t.fresh = s.fresh ∧ ∀ cid < n, t.cursors cid = none := by
  induction n with
  | zero => exact ⟨s,.refl,rfl,rfl,fun cid hcid => absurd hcid (Nat.not_lt_zero cid)⟩
  | succ n ih =>
    obtain ⟨t,ht,hframes,hfresh,hcursors⟩ := ih
    cases hn : t.cursors n with
    | none =>
      refine ⟨t,ht,hframes,hfresh,fun cid hcid => ?_⟩
      by_cases heq : cid = n
      · rw [heq,hn]
      · exact hcursors cid (by omega)
    | some cursor =>
      refine ⟨_,ht.tail (.freeCursor n true) trivial ⟨trivial,by rw [run,freeCursor,hn]; rfl⟩,
        ?_,?_,fun cid hcid => ?_⟩
      · simp [hframes]
      · simp [hfresh]
      · by_cases heq : cid = n
        · simp [heq]
        · simp [Function.update_of_ne heq,hcursors cid (by omega)]

theorem freeSession_frees (sid : ℕ) (s : SessionHeap) {o : Session} (ho : s.sessions sid = some o) :
    ∃ t, s.freeSession sid false = some t ∧ t.frames = s.frames ∧ t.cursors = s.cursors ∧
      t.fresh = s.fresh ∧ t.sessions = Function.update s.sessions sid none := by
  unfold freeSession
  rw [ho]
  obtain ⟨_ | r,client⟩ := o
  · exact ⟨_,rfl,rfl,rfl,rfl,rfl⟩
  · exact ⟨_,rfl,rfl,rfl,rfl,rfl⟩

theorem reaches_freeSessions (s : SessionHeap) (hframes : s.frames = [])
    (hcursors : ∀ cid, s.cursors cid = none) (n : ℕ) : ∃ t, Reaches Step Proper s t ∧
    t.frames = [] ∧ (∀ cid, t.cursors cid = none) ∧ t.fresh = s.fresh ∧
    ∀ sid < n, t.sessions sid = none := by
  induction n with
  | zero => exact ⟨s,.refl,hframes,hcursors,rfl,fun sid hsid => absurd hsid (Nat.not_lt_zero sid)⟩
  | succ n ih =>
    obtain ⟨t,ht,htframes,htcursors,hfresh,hsessions⟩ := ih
    have hfree : t.Unreferenced n := by
      refine ⟨fun cid cursor hcid => ?_,fun frame hm => ?_⟩
      · simp [htcursors] at hcid
      · simp [htframes] at hm
    cases hn : t.sessions n with
    | none =>
      refine ⟨t,ht,htframes,htcursors,hfresh,fun sid hsid => ?_⟩
      by_cases heq : sid = n
      · rw [heq,hn]
      · exact hsessions sid (by omega)
    | some o =>
      obtain ⟨u,hu,huframes,hucursors,hufresh,husessions⟩ := freeSession_frees n t hn
      refine ⟨u,ht.tail (.freeSession n false) trivial ⟨hfree,hu⟩,huframes.trans htframes,
        fun cid => ?_,hufresh.trans hfresh,fun sid hsid => ?_⟩
      · rw [hucursors,htcursors]
      · rw [husessions]
        by_cases heq : sid = n
        · rw [heq,Function.update_self]
        · rw [Function.update_of_ne heq,hsessions sid (by omega)]

/-- From every state an orderly end can be reached, with no Session object left. -/
theorem Accounted.reaches_end (h : s.Accounted) :
    ∃ t, Reaches Step Proper s t ∧ ∀ sid, t.sessions sid = none := by
  obtain ⟨t,ht,htframes⟩ := reaches_unwound s
  obtain ⟨u,hu,huframes,hufresh,hucursors⟩ := reaches_freeCursors t t.fresh
  have haccounted := h.reaches (ht.trans hu)
  have hnocursors : ∀ cid, u.cursors cid = none := fun cid => by
    by_contra hsome
    refine hsome (hucursors cid ?_)
    rw [← hufresh]
    exact haccounted.cursorFresh cid (Option.isSome_iff_ne_none.mpr hsome)
  obtain ⟨v,hv,-,-,hvfresh,hvsessions⟩ :=
    reaches_freeSessions u (huframes.trans htframes) hnocursors u.fresh
  refine ⟨v,(ht.trans hu).trans hv,fun sid => ?_⟩
  by_contra hsome
  refine hsome (hvsessions sid ?_)
  rw [← hvfresh]
  exact (haccounted.reaches hv).sessionFresh sid (Option.isSome_iff_ne_none.mpr hsome)

end

end SessionHeap

/-- Whatever else userland code does, no client session is destroyed twice, and each that is live
has one Session object to destroy it. Once every such object is ended or gone, which is always
still possible, all client sessions there were have been destroyed. -/
theorem clientSessions_returned {s : SessionHeap}
    (h : Reaches SessionHeap.Step SessionHeap.Proper SessionHeap.init s) :
    s.destroyed.Nodup ∧
    (∀ r ∈ s.live, r ∉ s.destroyed ∧ ∃! sid, s.clientSession sid = some r) ∧
    (∀ t, Reaches SessionHeap.Step SessionHeap.Proper s t → (∀ sid, t.isEnded sid = true) →
      t.live = [] ∧ s.live ++ s.destroyed ⊆ t.destroyed) ∧
    ∃ t, Reaches SessionHeap.Step SessionHeap.Proper s t ∧ ∀ sid, t.isEnded sid = true := by
  have haccounted := SessionHeap.init_accounted.reaches h
  obtain ⟨-,hnodup,hdisjoint⟩ := List.nodup_append.mp haccounted.nodup
  refine ⟨hnodup,fun r hr => ⟨fun hm => hdisjoint r hr r hm rfl,?_⟩,fun t ht hended => ?_,?_⟩
  · obtain ⟨sid,hsid⟩ := haccounted.holder r hr
    refine ⟨sid,hsid,fun sid' hsid' => ?_⟩
    have hnumber := (haccounted.held sid r hsid).1
    have hnumber' := (haccounted.held sid' r hsid').1
    omega
  · have hlive := (haccounted.reaches ht).live_eq_nil hended
    have hkeeps := haccounted.keeps ht
    rw [hlive] at hkeeps
    exact ⟨hlive,hkeeps⟩
  · obtain ⟨t,ht,hsessions⟩ := haccounted.reaches_end
    exact ⟨t,ht,fun sid => by simp [SessionHeap.isEnded,SessionHeap.clientSession,hsessions]⟩

/-- A command with an implicit session, whose cursor keeps it, and a Session whose transaction is
being aborted by `endSession`. -/
theorem clientSessions_returned_implicit : ∃ s : SessionHeap, s.live = [4,1] ∧
    s.destroying = [(3,4)] ∧ s.destroyed.Nodup ∧
    (∀ r ∈ s.live, r ∉ s.destroyed ∧ ∃! sid, s.clientSession sid = some r) ∧
    (∀ t, Reaches SessionHeap.Step SessionHeap.Proper s t → (∀ sid, t.isEnded sid = true) →
      t.live = [] ∧ s.live ++ s.destroyed ⊆ t.destroyed) ∧
    ∃ t, Reaches SessionHeap.Step SessionHeap.Proper s t ∧ ∀ sid, t.isEnded sid = true := by
  let x : Execution := ⟨true,7,.absent,.command,false,false,true,none⟩
  obtain ⟨s₁,h₁⟩ : ∃ s, SessionHeap.init.run (.execute x) = some s := ⟨_,rfl⟩
  obtain ⟨s₂,h₂⟩ : ∃ s, s₁.run (.resume (.succeeded true true)) = some s := by
    cases h₁; exact ⟨_,rfl⟩
  obtain ⟨s₃,h₃⟩ : ∃ s, s₂.run (.startSession 7 true) = some s := ⟨_,rfl⟩
  obtain ⟨s₄,h₄⟩ : ∃ s, s₃.run (.endSession 3 true) = some s := by
    cases h₁; cases h₂; cases h₃; exact ⟨_,rfl⟩
  have hframes : s₃.frames = [] := by
    cases h₁; cases h₂; cases h₃; rfl
  have hreach : Reaches SessionHeap.Step SessionHeap.Proper SessionHeap.init s₄ := by
    refine (((Reaches.refl.tail (.execute x) trivial ⟨?_,h₁⟩).tail
      (.resume (.succeeded true true)) trivial ⟨trivial,h₂⟩).tail (.startSession 7 true) trivial
      ⟨trivial,h₃⟩).tail (.endSession 3 true) ?_ ⟨?_,h₄⟩
    · simp [SessionHeap.Proper,SessionHeap.destroying,hframes]
    · simp [SessionHeap.Enabled,SessionHeap.Freeing,hframes]
    · intro sid hx
      cases hx
  refine ⟨s₄,?_,?_,clientSessions_returned hreach⟩
  · cases h₁; cases h₂; cases h₃; cases h₄
    rfl
  · cases h₁; cases h₂; cases h₃; cases h₄
    rfl

/-- A subscriber told of the abort ends the Session once more: its client session is freed twice. -/
theorem not_destroyed_nodup : ∃ s, Reaches SessionHeap.Step always SessionHeap.init s ∧
    ¬ s.destroyed.Nodup := by
  obtain ⟨s₁,h₁⟩ : ∃ s, SessionHeap.init.run (.startSession 7 true) = some s := ⟨_,rfl⟩
  obtain ⟨s₂,h₂⟩ : ∃ s, s₁.run (.endSession 0 true) = some s := by
    cases h₁; exact ⟨_,rfl⟩
  obtain ⟨s₃,h₃⟩ : ∃ s, s₂.run (.endSession 0 false) = some s := by
    cases h₁; cases h₂; exact ⟨_,rfl⟩
  obtain ⟨s₄,h₄⟩ : ∃ s, s₃.run (.resume (.succeeded false false)) = some s := by
    cases h₁; cases h₂; cases h₃; exact ⟨_,rfl⟩
  refine ⟨s₄,(((Reaches.refl.tail (.startSession 7 true) trivial ⟨trivial,h₁⟩).tail
    (.endSession 0 true) trivial ⟨?_,h₂⟩).tail (.endSession 0 false) trivial ⟨?_,h₃⟩).tail
    (.resume (.succeeded false false)) trivial ⟨trivial,h₄⟩,?_⟩
  · cases h₁; cases h₂; cases h₃; cases h₄
    decide
  · cases h₁
    rintro ⟨r,hr⟩
    cases hr
  · cases h₁; cases h₂
    rintro ⟨r,hr⟩
    cases List.mem_singleton.mp hr

end Phongo
