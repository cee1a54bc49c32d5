import Mathlib.Tactic.Common
import Phongo.Session.Heap

/-! Who owns a client session, and that allowed steps keep it so. -/
namespace Phongo

namespace SessionHeap

/-- What keeps a Session also uses the client session that it was created with. -/
def Paired (zsession mongocSession : Option ℕ) : Prop := mongocSession = zsession.map (· + 1)

/-- A frame goes on with the client session of its Session. -/
def FrameOwned : SessionFrame → Prop
  | .query zsession mongocSession => Paired zsession mongocSession
  | .endSession sid r | .freeSession sid r => r = sid + 1
  | _ => True

/-- The live client sessions are those of the Sessions not ended, and whatever uses a client
session keeps the Session it came from. -/
structure Owned (s : SessionHeap) : Prop where
  live : ∀ sid r, s.clientSession sid = some r → r = sid + 1 ∧ r ∈ s.live
  owner : ∀ r ∈ s.live, ∃ sid, s.clientSession sid = some r
  cursor : ∀ cid cursor, s.cursors cid = some cursor → cursor.hasId = true →
    Paired cursor.session cursor.mongocSession
  frame : ∀ frame ∈ s.frames, FrameOwned frame
  sessionFresh : ∀ sid o, s.sessions sid = some o → sid < s.fresh
  log : ∀ event ∈ s.log, event.IsSafe

section
variable {s t u : SessionHeap} {sid r : ℕ}

theorem exists_of_not_ended (h : s.isEnded sid = false) : ∃ r, s.clientSession sid = some r := by
  rw [isEnded,Option.isNone_eq_false_iff,Option.isSome_iff_exists] at h
  exact h

theorem init_owned : init.Owned where
  live _ _ h := by cases h
  owner _ h := by cases h
  cursor _ _ h := by cases h
  frame _ h := by cases h
  sessionFresh _ _ h := by cases h
  log _ h := by cases h

namespace Owned

theorem paired (h : s.Owned) (hr : s.clientSession sid = some r) :
    Paired (some sid) (s.clientSession sid) := by
  rw [hr,(h.live sid r hr).1]
  rfl

theorem notMem_of_ended (h : s.Owned) (hended : s.isEnded sid = true) : sid + 1 ∉ s.live := by
  intro hm
  obtain ⟨sid',hr⟩ := h.owner _ hm
  obtain rfl : sid = sid' := Nat.succ.inj (h.live sid' _ hr).1
  simp [isEnded,hr] at hended

theorem mem_of_not_ended (h : s.Owned) (hended : s.isEnded sid = false) :
    s.clientSession sid = some (sid + 1) ∧ sid + 1 ∈ s.live := by
  obtain ⟨r,hr⟩ := exists_of_not_ended hended
  obtain ⟨rfl,hlive⟩ := h.live sid r hr
  exact ⟨hr,hlive⟩

theorem addEvent (h : s.Owned) {event : SessionEvent} (he : event.IsSafe) :
    Owned { s with log := event::s.log } :=
  { h with log := List.forall_mem_cons.mpr ⟨he,h.log⟩ }

theorem callLive (h : s.Owned) (function : SessionFunction) (hr : r ∈ s.live) :
    (s.callWith function (some r)).Owned :=
  h.addEvent (by simp [SessionEvent.IsSafe,hr])

/-- A call of libmongoc on behalf of a Session that was not ended. -/
theorem callWith (h : s.Owned) (function : SessionFunction) (hended : s.isEnded sid = false) :
    (s.callWith function (s.clientSession sid)).Owned := by
  obtain ⟨hr,hlive⟩ := h.mem_of_not_ended hended
  rw [hr]
  exact h.callLive function hlive

theorem push (h : s.Owned) {frame : SessionFrame} (hf : FrameOwned frame) :
    (s.push frame).Owned :=
  { h with frame := List.forall_mem_cons.mpr ⟨hf,h.frame⟩ }

/-- Storing a cursor that keeps its Session as long as it has an id. -/
theorem updateCursor (h : s.Owned) (cid : ℕ) {cursor : SessionCursor}
    (hc : cursor.hasId = true → Paired cursor.session cursor.mongocSession) :
    Owned { s with cursors := Function.update s.cursors cid (some cursor) } :=
  { h with
    cursor := fun cid' c hcid => by
      by_cases heq : cid' = cid
      · subst heq
        simp only [Function.update_self,Option.some.injEq] at hcid
        subst hcid
        exact hc
      · simp only [Function.update_of_ne heq] at hcid
        exact h.cursor cid' c hcid }

theorem newCursor (h : s.Owned) {cursor : SessionCursor}
    (hc : cursor.hasId = true → Paired cursor.session cursor.mongocSession) :
    (s.newCursor cursor).Owned :=
  { h.updateCursor s.fresh hc with
    sessionFresh := fun sid o ho => Nat.lt_succ_of_lt (h.sessionFresh sid o ho) }

theorem newSession (h : s.Owned) (client : ℕ) : (s.newSession client).Owned := by
  have hself : (s.newSession client).sessions s.fresh = some ⟨some (s.fresh + 1),client⟩ :=
    Function.update_self _ _ _
  have hold : ∀ sid, sid ≠ s.fresh → (s.newSession client).sessions sid = s.sessions sid :=
    fun sid hne => Function.update_of_ne hne _ _
  refine ⟨?live,?owner,h.cursor,h.frame,?sessionFresh,h.log⟩
  case live =>
    intro sid r hr
    by_cases heq : sid = s.fresh
    · rw [clientSession,heq,hself] at hr
      obtain rfl := Option.some.inj hr
      exact ⟨by rw [heq],List.mem_cons_self⟩
    · rw [clientSession,hold sid heq] at hr
      obtain ⟨hnumber,hlive⟩ := h.live sid r hr
      exact ⟨hnumber,List.mem_cons_of_mem _ hlive⟩
  case owner =>
    intro r hr
    rcases List.mem_cons.mp hr with rfl | hr
    · exact ⟨s.fresh,by rw [clientSession,hself]; rfl⟩
    · obtain ⟨sid,hsid⟩ := h.owner r hr
      obtain ⟨o,ho,hor⟩ := Option.bind_eq_some_iff.mp hsid
      exact ⟨sid,by rw [clientSession,hold sid (Nat.ne_of_lt (h.sessionFresh sid o ho)),ho]; exact hor⟩
  case sessionFresh =>
    intro sid o ho
    show sid < s.fresh + 2
    by_cases heq : sid = s.fresh
    · omega
    · rw [hold sid heq] at ho
      have := h.sessionFresh sid o ho
      omega

theorem dropSession (h : s.Owned) (hended : s.isEnded sid = false) (o' : Option Session)
    (ho' : o'.bind (·.clientSession) = none) :
    Owned { s.free (sid + 1) with sessions := Function.update s.sessions sid o' } := by
  obtain ⟨hown,hmem⟩ := h.mem_of_not_ended hended
  obtain ⟨o,ho,-⟩ := Option.bind_eq_some_iff.mp hown
  have hold : ∀ sid', sid' ≠ sid → Function.update s.sessions sid o' sid' = s.sessions sid' :=
    fun sid' hne => Function.update_of_ne hne _ _
  have hclient : ∀ sid' r, (Function.update s.sessions sid o' sid').bind (·.clientSession) = some r →
      sid' ≠ sid ∧ s.clientSession sid' = some r := by
    intro sid' r hr
    by_cases heq : sid' = sid
    · rw [heq,Function.update_self,ho'] at hr
      cases hr
    · rw [hold sid' heq] at hr
      exact ⟨heq,hr⟩
  refine ⟨?live,?owner,h.cursor,h.frame,?sessionFresh,?log⟩
  case live =>
    intro sid' r hr
    obtain ⟨hne,hr⟩ := hclient sid' r hr
    obtain ⟨rfl,hlive⟩ := h.live sid' r hr
    refine ⟨rfl,List.mem_filter.mpr ⟨hlive,decide_eq_true ?_⟩⟩
    omega
  case owner =>
    intro r hr
    obtain ⟨hlive,hne⟩ := List.mem_filter.mp hr
    obtain ⟨sid',hr'⟩ := h.owner r hlive
    have heq : sid' ≠ sid := fun heq => by
      rw [heq,hown,Option.some.injEq] at hr'
      exact of_decide_eq_true hne hr'.symm
    refine ⟨sid',?_⟩
    show (Function.update s.sessions sid o' sid').bind (·.clientSession) = some r
    rw [hold sid' heq]
    exact hr'
  case sessionFresh =>
    intro sid' o₁ ho₁
    by_cases heq : sid' = sid
    · rw [heq]
      exact h.sessionFresh sid o ho
    · have ho₂ : Function.update s.sessions sid o' sid' = some o₁ := ho₁
      rw [hold sid' heq] at ho₂
      exact h.sessionFresh sid' o₁ ho₂
  case log =>
    exact List.forall_mem_cons.mpr ⟨decide_eq_true hmem,h.log⟩

theorem finishEndSession (h : s.Owned) (hended : s.isEnded sid = false) :
    (s.finishEndSession sid (sid + 1)).Owned :=
  h.dropSession hended _ (by cases s.sessions sid <;> rfl)

theorem finishFreeSession (h : s.Owned) (hended : s.isEnded sid = false) :
    (s.finishFreeSession sid (sid + 1)).Owned :=
  h.dropSession hended none rfl

theorem dropEnded (h : s.Owned) {o : Session} (ho : s.sessions sid = some o)
    (hr : o.clientSession = none) :
    Owned { s with sessions := Function.update s.sessions sid none } := by
  have hclient : ∀ sid', (Function.update s.sessions sid none sid').bind (·.clientSession) =
      s.clientSession sid' := fun sid' => by
    by_cases heq : sid' = sid
    · rw [heq,Function.update_self,clientSession,ho]
      exact hr.symm
    · rw [Function.update_of_ne heq,clientSession]
  refine ⟨fun sid' r hr' => h.live sid' r ((hclient sid').symm.trans hr'),fun r hr' => ?_,h.cursor,
    h.frame,fun sid' o' ho' => ?_,h.log⟩
  · obtain ⟨sid',hsid'⟩ := h.owner r hr'
    exact ⟨sid',(hclient sid').trans hsid'⟩
  · by_cases heq : sid' = sid
    · rw [heq]
      exact h.sessionFresh sid o ho
    · have ho'' : Function.update s.sessions sid none sid' = some o' := ho'
      rw [Function.update_of_ne heq] at ho''
      exact h.sessionFresh sid' o' ho''

theorem endSession (h : s.Owned) {aborts : Bool} (hended : s.isEnded sid = false)
    (ht : s.endSession sid aborts = some t) : t.Owned := by
  obtain ⟨o,ho,rfl⟩ := Option.map_eq_some_iff.mp ht
  obtain ⟨hr,hlive⟩ := h.mem_of_not_ended hended
  have hor : o.clientSession = some (sid + 1) := by simpa [SessionHeap.clientSession,ho] using hr
  have hcalled := h.callLive .destroy hlive
  simp only [hor]
  split
  · exact hcalled.push rfl
  · exact hcalled.finishEndSession hended

theorem freeSession (h : s.Owned) {aborts : Bool} (ht : s.freeSession sid aborts = some t) :
    t.Owned := by
  obtain ⟨o,ho,rfl⟩ := Option.map_eq_some_iff.mp ht
  cases hor : o.clientSession with
  | none => exact h.dropEnded ho hor
  | some r =>
    have hr : s.clientSession sid = some r := by simp [SessionHeap.clientSession,ho,hor]
    obtain ⟨rfl,hlive⟩ := h.live sid r hr
    have hcalled := h.callLive .destroy hlive
    have hended : s.isEnded sid = false := by simp [isEnded,hr]
    dsimp only
    split
    · exact hcalled.push rfl
    · exact hcalled.finishFreeSession hended

theorem callMethod (h : s.Owned) {m : SessionMethod} (ht : s.callMethod m sid = some t) :
    t.Owned := by
  obtain ⟨o,ho,rfl⟩ := Option.map_eq_some_iff.mp ht
  cases hor : o.clientSession with
  | none => exact h.addEvent rfl
  | some r =>
    have hr : s.clientSession sid = some r := by simp [SessionHeap.clientSession,ho,hor]
    dsimp only
    split
    · exact h.push trivial
    · exact h.callLive _ (h.live sid r hr).2

end Owned

/-- Steps that call libmongoc but leave the Session objects as they are. -/
structure Calls (s t : SessionHeap) : Prop where
  owned : t.Owned
  sessions : t.sessions = s.sessions

namespace Calls

theorem refl (h : s.Owned) : Calls s s := ⟨h,rfl⟩

theorem trans (h : Calls s t) (h' : Calls t u) : Calls s u :=
  ⟨h'.owned,h'.sessions.trans h.sessions⟩

theorem clientSession (h : Calls s t) (sid : ℕ) : t.clientSession sid = s.clientSession sid := by
  rw [SessionHeap.clientSession,SessionHeap.clientSession,h.sessions]

theorem isEnded (h : Calls s t) (sid : ℕ) : t.isEnded sid = s.isEnded sid := by
  rw [SessionHeap.isEnded,SessionHeap.isEnded,h.clientSession]

theorem optionAllowed (h : Calls s t) {option : SessionOption} (ho : s.OptionAllowed option) :
    t.OptionAllowed option := fun sid hsid => (h.isEnded sid).trans (ho sid hsid)

theorem callWith (h : s.Owned) (function : SessionFunction) (hended : s.isEnded sid = false) :
    Calls s (s.callWith function (s.clientSession sid)) := ⟨h.callWith function hended,rfl⟩

end Calls

theorem parseSession_calls (h : s.Owned) (client : ℕ) {option : SessionOption}
    (ho : s.OptionAllowed option) (append : Option Bool) :
    Calls s (s.parseSession client option append).2 := by
  cases option with
  | absent => exact .refl h
  | invalid => exact .refl h
  | session sid =>
    have hended := ho sid rfl
    have hget := Calls.callWith h .getClient hended
    simp only [parseSession,noteEnded,hended,Bool.false_eq_true,if_false]
    split
    · exact hget
    · cases append with
      | none => exact hget
      | some appended =>
        have happend := Calls.callWith hget.owned .append ((hget.isEnded sid).trans hended)
        exact hget.trans happend

theorem selectServer_calls (h : s.Owned) (x : Execution) (ho : s.OptionAllowed x.option) :
    Calls s (s.selectServer x).2 := by
  unfold selectServer
  cases hx : x.option with
  | absent => exact .refl h
  | invalid => exact .refl h
  | session sid =>
    have hended := ho sid hx
    have hget := Calls.callWith h .getServerId hended
    dsimp only
    split
    · exact hget.trans (Calls.callWith hget.owned .getServerId ((hget.isEnded sid).trans hended))
    · exact hget

theorem prepareExecute_calls (h : s.Owned) (x : Execution) (ho : s.OptionAllowed x.option) :
    Calls s (s.prepareExecute x).2 := by
  have hparsed := parseSession_calls h x.client ho none
  unfold prepareExecute
  dsimp only
  split
  · exact hparsed
  · exact hparsed.trans (selectServer_calls hparsed.owned x (hparsed.optionAllowed ho))

theorem sendCommand_owned (h : s.Owned) (x : Execution) (ho : s.OptionAllowed x.option) :
    (s.sendCommand x).Owned := by
  have hframe : ∀ zsession (t : SessionHeap), t.Owned → (t.push (.command zsession)).Owned :=
    fun _ _ ht => ht.push trivial
  have himplicit : (if x.unacknowledgedWriteConcern || !x.implicitSession then s.push (.command none)
      else
        let sid := s.fresh
        let s := s.newSession x.client
        let s := s.callWith .append (s.clientSession sid)
        if x.stop = some .afterImplicitSession then s
        else (s.callWith .command (s.clientSession sid)).push (.command (some sid))).Owned := by
    split
    · exact hframe none s h
    · have hnew := h.newSession x.client
      have hended : (s.newSession x.client).isEnded s.fresh = false := by
        simp [isEnded,clientSession,newSession]
      have happend := Calls.callWith hnew .append hended
      dsimp only
      split
      · exact happend.owned
      · exact hframe _ _ (Calls.callWith happend.owned .command
          ((happend.isEnded _).trans hended)).owned
  unfold sendCommand
  cases hx : x.option with
  | absent => exact himplicit
  | invalid => exact himplicit
  | session sid =>
    dsimp only
    split
    · exact h
    · exact hframe _ _ (h.callWith .command (ho sid hx))

theorem sendQuery_owned (h : s.Owned) (x : Execution) (ho : s.OptionAllowed x.option) :
    (s.sendQuery x).Owned := by
  unfold sendQuery
  cases hx : x.option with
  | absent => exact h.push rfl
  | invalid => exact h.push rfl
  | session sid =>
    obtain ⟨r,hr⟩ := exists_of_not_ended (ho sid hx)
    exact (h.callWith .find (ho sid hx)).push (h.paired hr)

theorem sendBulkWrite_owned (h : s.Owned) (x : Execution) (ho : s.OptionAllowed x.option) :
    (s.sendBulkWrite x).Owned := by
  unfold sendBulkWrite
  cases hx : x.option with
  | absent => exact h.push trivial
  | invalid => exact h.push trivial
  | session sid =>
    dsimp only
    split
    · exact h
    · exact (h.callWith .setClientSession (ho sid hx)).push trivial

theorem phongoExecute_owned (h : s.Owned) (x : Execution)
    (ho : x.stop ≠ some .beforeSession → s.OptionAllowed x.option) :
    (s.phongoExecute x).Owned := by
  unfold phongoExecute
  split
  · exact h
  · rename_i hstop
    have ho := ho hstop
    dsimp only
    have hparsed := parseSession_calls h x.client ho x.append
    split
    · exact hparsed.owned
    · cases x.kind with
      | command => exact sendCommand_owned hparsed.owned x (hparsed.optionAllowed ho)
      | query => exact sendQuery_owned hparsed.owned x (hparsed.optionAllowed ho)
      | bulkWrite => exact sendBulkWrite_owned hparsed.owned x (hparsed.optionAllowed ho)

namespace Owned

theorem execute (h : s.Owned) (x : Execution)
    (ho : x.readsSession = true → s.OptionAllowed x.option) (ht : s.execute x = some t) :
    t.Owned := by
  unfold SessionHeap.execute at ht
  split at ht
  · rw [Option.some.injEq] at ht
    subst ht
    cases hm : x.ofManager with
    | false => exact phongoExecute_owned h x fun hstop => ho (by simp [Execution.readsSession,hstop])
    | true =>
      have ho := ho (by simp [Execution.readsSession,hm])
      have hprepared := prepareExecute_calls h x ho
      simp only [if_true]
      split
      · exact phongoExecute_owned hprepared.owned x fun _ => hprepared.optionAllowed ho
      · exact hprepared.owned
  · cases ht

theorem dropFrame (h : s.Owned) {frame : SessionFrame} {frames : List SessionFrame}
    (hf : s.frames = frame::frames) : Owned { s with frames := frames } :=
  { h with frame := fun frame' hm => h.frame frame' (hf ▸ List.mem_cons_of_mem _ hm) }

theorem destroyCursor (h : s.Owned) {zsession mongocSession : Option ℕ} {hasId : Bool}
    (hpaired : hasId = true → Paired zsession mongocSession)
    (hallowed : hasId = true → ∀ sid, zsession = some sid → s.isEnded sid = false) :
    (s.destroyCursor mongocSession hasId).Owned := by
  unfold SessionHeap.destroyCursor
  cases hasId with
  | false => cases mongocSession <;> exact h
  | true =>
    have hm := hpaired rfl
    cases zsession with
    | none =>
      rw [show mongocSession = none from hm]
      exact h
    | some sid =>
      rw [show mongocSession = some (sid + 1) from hm]
      exact h.callLive .killCursors (h.mem_of_not_ended (hallowed rfl sid rfl)).2

theorem resume (h : s.Owned) {reply : SessionReply} (hallowed : s.Allowed (.resume reply))
    (ht : s.resume reply = some t) : t.Owned := by
  unfold SessionHeap.resume at ht
  split at ht
  · cases ht
  · rename_i frame frames hf
    have hd := h.dropFrame hf
    have hframe : FrameOwned frame := h.frame frame (hf ▸ List.mem_cons_self)
    rw [Option.some.injEq] at ht
    subst ht
    simp only [Allowed,hf] at hallowed
    split
    · obtain rfl : _ = _ + 1 := hframe
      exact hd.finishEndSession hallowed
    · obtain rfl : _ = _ + 1 := hframe
      exact hd.finishFreeSession hallowed
    · rename_i hasId zsession mongocSession
      refine hd.destroyCursor (fun _ => hframe) fun hid sid hz => ?_
      subst hid hz
      exact hallowed
    · exact hd
    · exact hd.callWith .append hallowed
    · exact hd
    · exact hd.callWith (.accessor _) hallowed
    · exact hd
    · exact hd.newCursor fun _ => hframe
    · obtain ⟨r,hr⟩ := exists_of_not_ended hallowed
      exact (hd.callWith .append hallowed).newCursor fun _ => hd.paired hr
    · exact hd.newCursor fun _ => rfl
    · exact hd.newCursor fun hid => by cases hid

end Owned

theorem mongocNext_owned (h : s.Owned) (cid : ℕ) {cursor : SessionCursor} (getMore hasId : Bool)
    (hc : cursor.hasId = true → Paired cursor.session cursor.mongocSession)
    (hallowed : getMore = true → cursor.hasId = true → ∀ sid, cursor.session = some sid →
      s.isEnded sid = false) : (s.mongocNext cid cursor getMore hasId).Owned := by
  have hid : ∀ b, (cursor.hasId && b) = true → cursor.hasId = true := fun b hb =>
    (Bool.and_eq_true _ _ ▸ hb).1
  unfold mongocNext
  dsimp only
  split
  · rename_i hsent
    rw [Bool.and_eq_true] at hsent
    have hm := hc hsent.2
    cases hz : cursor.session with
    | none =>
      rw [hz] at hm
      have hr : cursor.mongocSession = none := hm
      simp only [hr]
      exact h.updateCursor _ fun _ => by simp [Paired]
    | some sid =>
      rw [hz] at hm
      have hr : cursor.mongocSession = some (sid + 1) := hm
      have hlive := (h.mem_of_not_ended (hallowed hsent.1 hsent.2 sid hz)).2
      simp only [hr]
      exact (h.callLive .getMore hlive).updateCursor _ fun _ => by simp [Paired]
  · exact h.updateCursor _ fun hid' => hc (hid hasId hid')

theorem freeSessionIfExhausted_owned (h : s.Owned) (cid : ℕ) :
    (s.freeSessionIfExhausted cid).Owned := by
  unfold freeSessionIfExhausted
  split
  · split
    · exact h
    · rename_i hid
      exact h.updateCursor _ fun hid' => absurd hid' hid
  · exact h

namespace Owned

theorem next (h : s.Owned) {cid : ℕ} {getMore hasId : Bool}
    (hallowed : s.SendAllowed cid getMore) (ht : s.next cid getMore hasId = some t) :
    t.Owned := by
  obtain ⟨cursor,hcid,rfl⟩ := Option.map_eq_some_iff.mp ht
  refine freeSessionIfExhausted_owned (mongocNext_owned h cid getMore hasId ?_ ?_) cid
  · simpa using h.cursor cid cursor hcid
  · intro hsent hid sid hsid
    simp only [SessionCursor.hasId_move,SessionCursor.session_move] at hid hsid
    exact hallowed cursor sid hcid hsent hid hsid

theorem rewind (h : s.Owned) {cid : ℕ} {getMore hasId error : Bool}
    (hallowed : s.SendAllowed cid (getMore && s.notAdvanced cid))
    (ht : s.rewind cid getMore hasId error = some t) : t.Owned := by
  obtain ⟨cursor,hcid,rfl⟩ := Option.map_eq_some_iff.mp ht
  split
  · split
    · exact h
    · exact freeSessionIfExhausted_owned h cid
  · rename_i hadvanced
    have hnext : (s.mongocNext cid { cursor with advanced := true } getMore hasId).Owned := by
      refine mongocNext_owned h cid getMore hasId (h.cursor cid cursor hcid) ?_
      intro hsent hid sid hsid
      exact hallowed cursor sid hcid (by simp [notAdvanced,hcid,hsent,hadvanced]) hid hsid
    dsimp only
    split
    · exact hnext
    · split
      · exact hnext
      · exact freeSessionIfExhausted_owned hnext cid

theorem freeCursor (h : s.Owned) {cid : ℕ} {samePid : Bool} (hallowed : s.SendAllowed cid samePid)
    (ht : s.freeCursor cid samePid = some t) : t.Owned := by
  obtain ⟨cursor,hcid,rfl⟩ := Option.map_eq_some_iff.mp ht
  have hdestroyed : (s.destroyCursor cursor.mongocSession (samePid && cursor.hasId)).Owned := by
    have hpaired (hsent : (samePid && cursor.hasId) = true) :
        Paired cursor.session cursor.mongocSession :=
      h.cursor cid cursor hcid (Bool.and_eq_true_iff.mp hsent).2
    refine h.destroyCursor hpaired fun hsent sid hz => ?_
    obtain ⟨hpid,hid⟩ := Bool.and_eq_true_iff.mp hsent
    exact hallowed cursor sid hcid hpid hid hz
  exact { hdestroyed with
    cursor := fun cid' c hc => by
      by_cases heq : cid' = cid
      · simp only [heq,Function.update_self] at hc
        cases hc
      · simp only [Function.update_of_ne heq] at hc
        exact h.cursor cid' c hc }

theorem step (h : s.Owned) (op : SessionOp) (hallowed : s.Allowed op) (hstep : s.Step op t) :
    t.Owned := by
  have hrun := hstep.2
  cases op with
  | startSession client started =>
    simp only [run,Option.some.injEq] at hrun
    subst hrun
    unfold startSession
    split
    · exact h.newSession client
    · exact h
  | endSession sid aborts => exact h.endSession hallowed hrun
  | callMethod m sid => exact h.callMethod hrun
  | execute x => exact h.execute x hallowed hrun
  | resume reply => exact h.resume hallowed hrun
  | next cid getMore hasId => exact h.next hallowed hrun
  | rewind cid getMore hasId error => exact h.rewind hallowed hrun
  | freeSession sid aborts => exact h.freeSession hrun
  | freeCursor cid samePid => exact h.freeCursor hallowed hrun

end Owned

end

end SessionHeap

end Phongo
