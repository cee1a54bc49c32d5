import Mathlib.Tactic.Common
import Phongo.Bson.Pending
import Phongo.Cursor

/-! The protocol of a cursor: element, key and position against the documents libmongoc has
delivered, which need not come one for each call. -/
namespace Phongo
open Transition

namespace Cursor

/-- `Cursor::key`, where none is NULL -/
def key (c : Cursor) : Option ℕ := if c.visitorData.zchild.isUndef then none else some c.current

/-- What `Cursor::rewind` throws once iteration has started. -/
def rewindException : Exception :=
  .phongo .logic "Cursors cannot rewind after starting iteration" []

end Cursor

def Reply.document? : Reply → Option BsonInput
  | .document input => some input
  | _ => none

/-- A call of an iterator method or of `setTypeMap`. -/
inductive IteratorCall
  | call (c : CursorCall)
  | valid
  | key

def IteratorCall.reenters : IteratorCall → Bool
  | .call c => c.reenters
  | _ => false

/-- A cursor with what `mongoc_cursor_next` has answered so far, and whether `next()` was called
at a position. -/
structure CursorLog where
  run : CursorRun
  replies : List Reply
  moved : Bool

namespace CursorLog

def delivered (l : CursorLog) : List BsonInput := l.replies.filterMap Reply.document?

def command (stream : List Answer) : CursorLog := ⟨CursorRun.init ⟨none,stream⟩ false,[],false⟩

/-- The cursor of a query, which `phongo_execute_query` advances before it makes the object;
there is none after an error, and none that a caller gets after an exception. -/
def query (stream : List Answer) : Option CursorLog :=
  let (answer,mongoc) := (⟨none,stream⟩ : MongocCursor).next
  let (ok,eg,_) := (⟨none,stream⟩ : MongocCursor).advanceAndCheckForError
  if ok = true ∧ eg = [] then some ⟨CursorRun.init mongoc true,[answer.reply],false⟩ else none

/-- What `mongoc_cursor_next` answers in a call. -/
def answersTo (l : CursorLog) : CursorMethod → List Reply
  | .next => [l.run.cursor.mongoc.next.1.reply]
  | .rewind => if l.run.cursor.advanced then [] else [l.run.cursor.mongoc.next.1.reply]
  | _ => []

def answers (l : CursorLog) : IteratorCall → List Reply
  | .call c => l.answersTo c.method
  | _ => []

/-- `next()` at a position moves. -/
def movedBy (l : CursorLog) : CursorMethod → Bool
  | .next => l.moved || l.run.cursor.advanced
  | _ => l.moved

def after (L : Libbson) (U : Userland) (l : CursorLog) : IteratorCall → CursorLog
  | .call c => ⟨l.run.call L U c.freed c.method,l.replies ++ l.answersTo c.method,
      l.movedBy c.method⟩
  | _ => l

/-- One call; what it leaves when the cursor is called again inside it is open. -/
def Step (L : Libbson) (U : Userland) (l : CursorLog) (call : IteratorCall) (l' : CursorLog) :
    Prop := call.reenters = false → l' = l.after L U call

/-- A document that comes comes after documents only. -/
def Steady (l : CursorLog) (call : IteratorCall) : Prop :=
  ∀ r ∈ l.answers call, r.document?.isSome → ∀ r' ∈ l.replies, r'.document?.isSome

/-- The documents a call decodes meet no harmful class and nothing pending, and user code leaves
the cursor alone. -/
def Admissible (L : Libbson) (U : Userland) (l : CursorLog) : IteratorCall → Prop
  | .call c => l.run.Admissible L U c
  | _ => True

/-- A valid cursor shows the document delivered last under its index, and `rewind()` throws
exactly if the cursor has moved, which it then does not notice. -/
structure FollowsProtocol (L : Libbson) (U : Userland) (l : CursorLog) : Prop where
  element : l.run.cursor.valid = true → ∃ input i, l.delivered.getLast? = some input ∧
    l.run.cursor.currentValue = freshValue L U l.run.typemap input ∧
    l.run.cursor.key = some i ∧ l.delivered.length = i + 1
  rewindThrows : ∀ freed, Cursor.rewindException ∉ freed →
    (Cursor.rewindException ∈ (l.run.cursor.rewind L U freed).2 ↔ l.moved = true)
  rewindKeeps : ∀ freed, l.moved = true → (l.run.cursor.rewind L U freed).1 = l.run.cursor

/-- Neither libmongoc nor a subscriber reports what `rewind()` itself throws. -/
def OfStream (stream : List Answer) : Prop :=
  ∀ answer ∈ stream, Cursor.rewindException ∉ answer.pending ∧
    answer.reply ≠ .error Cursor.rewindException

/-- The invariant: each answer moves the position by one. -/
structure Tracks (L : Libbson) (U : Userland) (l : CursorLog) : Prop where
  independent : l.run.Independent L U
  position : l.run.cursor.advanced = true → l.run.cursor.current + 1 = l.replies.length
  untouched : l.run.cursor.advanced = false → l.replies = [] ∧ l.run.cursor.current = 0
  last : l.run.cursor.mongoc.current = l.replies.getLast?.bind Reply.document?
  moved : l.moved = true ↔ 0 < l.run.cursor.current
  steady : (l.replies.getLast?.bind Reply.document?).isSome → ∀ r ∈ l.replies, r.document?.isSome
  upcoming : OfStream l.run.cursor.mongoc.upcoming

end CursorLog

namespace MongocCursor

theorem current_next (c : MongocCursor) : c.next.2.current = c.next.1.reply.document? := by
  obtain ⟨current,upcoming⟩ := c
  cases upcoming with
  | nil => rfl
  | cons answer rest =>
    obtain ⟨reply,pending⟩ := answer
    cases reply <;> rfl

theorem upcoming_next (c : MongocCursor) : c.next.2.upcoming ⊆ c.upcoming := by
  obtain ⟨current,upcoming⟩ := c
  cases upcoming with
  | nil => exact List.Subset.refl _
  | cons answer rest =>
    obtain ⟨reply,pending⟩ := answer
    cases reply <;> exact List.subset_cons_self _ _

/-- An answer is one of the stream or comes after its end. -/
theorem next_mem (c : MongocCursor) : c.next.1 ∈ c.upcoming ∨ c.next.1 =
    ⟨.error (.phongo .mongocFailed "Cannot advance a completed or failed cursor." []),[]⟩ := by
  obtain ⟨current,upcoming⟩ := c
  cases upcoming with
  | nil => exact Or.inr rfl
  | cons answer rest =>
    obtain ⟨reply,pending⟩ := answer
    cases reply <;> exact Or.inl List.mem_cons_self

theorem advanceAndCheckForError_mongoc (c : MongocCursor) :
    c.advanceAndCheckForError.2.2 = c.next.2 := by
  unfold advanceAndCheckForError
  dsimp only
  split <;> rfl

/-- What is thrown is the error libmongoc reports or was thrown by a subscriber. -/
theorem mem_advanceAndCheckForError {c : MongocCursor} {e : Exception}
    (h : e ∈ c.advanceAndCheckForError.2.1) :
    e ∈ c.next.1.pending ∨ c.next.1.reply = .error e := by
  unfold advanceAndCheckForError at h
  dsimp only at h
  split at h
  · exact Or.inl h
  · exact Or.inl h
  · rename_i e' he
    rw [he]
    by_cases hp : c.next.1.pending.isEmpty = true
    · simp only [hp,if_true,List.mem_singleton] at h
      exact Or.inr (by rw [h])
    · simp only [hp] at h
      exact Or.inl h

end MongocCursor

namespace Cursor
variable (L : Libbson) (U : Userland) (freed : Pending) (c : Cursor)

@[simp] theorem decode_current (input : BsonInput) (eg : Pending) :
    (c.decode L U input eg).1.current = c.current := by
  unfold decode; dsimp only; split <;> rfl

/-- What `next()` does to the position. -/
theorem next_position : (c.next L U freed).1.mongoc = c.mongoc.next.2 ∧
    (c.next L U freed).1.advanced = true ∧
    (c.next L U freed).1.current = if c.advanced then c.current + 1 else c.current := by
  unfold next
  rcases hnext : c.mongoc.next with ⟨⟨reply,pending⟩,mongoc⟩
  cases ha : c.advanced <;> cases reply <;> simp [freeCurrent,ha,hnext]

theorem advanceOnce_mongoc : c.advanceOnce.2.2.mongoc =
    if c.advanced then c.mongoc else c.mongoc.next.2 := by
  unfold advanceOnce
  split
  · rfl
  · exact c.mongoc.advanceAndCheckForError_mongoc

/-- What `rewind()` does to the position. -/
theorem rewind_position : (c.rewind L U freed).1.mongoc =
      (if c.advanced then c.mongoc else c.mongoc.next.2) ∧
    (c.rewind L U freed).1.advanced = true ∧ (c.rewind L U freed).1.current = c.current := by
  obtain ⟨-,hcurrent,hadvanced,-⟩ := c.advanceOnce_fields
  have hmongoc := c.advanceOnce_mongoc
  unfold rewind
  dsimp only
  split
  · split
    · exact ⟨hmongoc,hadvanced,hcurrent⟩
    · split
      · rw [decode_mongoc,decode_advanced,decode_current]
        exact ⟨hmongoc,hadvanced,hcurrent⟩
      · exact ⟨hmongoc,hadvanced,hcurrent⟩
  · exact ⟨hmongoc,hadvanced,hcurrent⟩

theorem setTypeMap_position (parsed : Except Pending Typemap) :
    (c.setTypeMap L U parsed freed).1.mongoc = c.mongoc ∧
    (c.setTypeMap L U parsed freed).1.advanced = c.advanced ∧
    (c.setTypeMap L U parsed freed).1.current = c.current := by
  unfold setTypeMap
  split
  · exact ⟨rfl,rfl,rfl⟩
  · dsimp only
    split
    · rw [decode_mongoc,decode_advanced,decode_current]
      exact ⟨rfl,rfl,rfl⟩
    · exact ⟨rfl,rfl,rfl⟩

/-- Decoding throws nothing that `rewind()` itself throws. -/
theorem rewindException_notMem_decode (input : BsonInput) {eg : Pending}
    (heg : rewindException ∉ eg) : rewindException ∉ (c.decode L U input eg).2 := by
  intro h
  obtain ⟨thrown,heq,hthrown⟩ := throws_bsonToZvalEx (L:=L) (U:=U) input c.visitorData eg
  have hmem : rewindException ∈ thrown ++ eg := heq ▸ h
  rcases List.mem_append.mp hmem with hmem | hmem
  · have hconversion := hthrown _ hmem
    simp [rewindException,Exception.OfConversion] at hconversion
  · exact heg hmem

theorem rewindException_notMem_advanceOnce (h : CursorLog.OfStream c.mongoc.upcoming) :
    rewindException ∉ c.advanceOnce.2.1 := by
  unfold advanceOnce
  split
  · exact List.not_mem_nil
  · intro hmem
    have hthrown := MongocCursor.mem_advanceAndCheckForError hmem
    rcases c.mongoc.next_mem with hin | hend
    · rcases hthrown with hp | he
      · exact (h _ hin).1 hp
      · exact (h _ hin).2 he
    · simp [hend,rewindException] at hthrown

/-- At the first position `rewind()` does not throw its exception. -/
theorem rewindException_notMem (hzero : c.current = 0)
    (h : CursorLog.OfStream c.mongoc.upcoming) {freed : Pending}
    (hfreed : rewindException ∉ freed) : rewindException ∉ (c.rewind L U freed).2 := by
  obtain ⟨-,hcurrent,-,-⟩ := c.advanceOnce_fields
  have hadvance := c.rewindException_notMem_advanceOnce h
  have hpending : rewindException ∉ freed ++ c.advanceOnce.2.1 := fun hmem =>
    (List.mem_append.mp hmem).elim hfreed hadvance
  have hnot : ¬ c.advanceOnce.2.2.current > 0 := by omega
  unfold rewind
  dsimp only
  rw [if_neg hnot]
  split
  · split
    · exact rewindException_notMem_decode L U _ _ hpending
    · exact hpending
  · exact hadvance

/-- Past it `rewind()` does nothing else. -/
theorem rewind_moved (hadvanced : c.advanced = true) (hpos : 0 < c.current) :
    c.rewind L U freed = (c,[rewindException]) := by
  unfold rewind advanceOnce
  rw [if_pos hadvanced]
  exact if_pos hpos

end Cursor

namespace CursorLog
variable {L : Libbson} {U : Userland} {l : CursorLog}

theorem tracks_command {stream : List Answer} (h : OfStream stream) :
    (command stream).Tracks L U :=
  ⟨CursorRun.init_independent _ _,nofun,fun _ => ⟨rfl,rfl⟩,rfl,
    by simp [command,CursorRun.init,Cursor.init],nofun,h⟩

theorem OfStream.next {c : MongocCursor} (h : OfStream c.upcoming) :
    OfStream c.next.2.upcoming := fun answer hin => h answer (c.upcoming_next hin)

theorem tracks_query {stream : List Answer} (h : OfStream stream) (hl : query stream = some l) :
    l.Tracks L U := by
  have hcurrent := (⟨none,stream⟩ : MongocCursor).current_next
  unfold query at hl
  dsimp only at hl
  split at hl
  · obtain rfl := Option.some.inj hl
    refine ⟨CursorRun.init_independent _ _,fun _ => rfl,nofun,hcurrent,?_,?_,OfStream.next h⟩
    · simp [CursorRun.init,Cursor.init]
    · intro hs r hr
      rw [List.mem_singleton.mp hr]
      exact hs
  · cases hl

theorem Tracks.answer (h : l.Tracks L U) {run : CursorRun} {moved : Bool}
    (hindependent : run.Independent L U)
    (hmongoc : run.cursor.mongoc = l.run.cursor.mongoc.next.2)
    (hadvanced : run.cursor.advanced = true)
    (hcurrent : run.cursor.current =
      if l.run.cursor.advanced then l.run.cursor.current + 1 else l.run.cursor.current)
    (hmoved : moved = (l.moved || l.run.cursor.advanced))
    (hsteady : l.run.cursor.mongoc.next.1.reply.document?.isSome →
      ∀ r ∈ l.replies, r.document?.isSome) :
    Tracks L U ⟨run,l.replies ++ [l.run.cursor.mongoc.next.1.reply],moved⟩ := by
  refine ⟨hindependent,fun _ => ?_,fun hf => absurd (hadvanced.symm.trans hf) (by simp),?_,?_,
    ?_,?_⟩
  · rw [hcurrent,List.length_append,List.length_singleton]
    cases ha : l.run.cursor.advanced with
    | true => simpa using h.position ha
    | false =>
      obtain ⟨hnil,hzero⟩ := h.untouched ha
      simp [hnil,hzero]
  · simp [hmongoc,MongocCursor.current_next]
  · rw [hmoved,hcurrent]
    cases ha : l.run.cursor.advanced with
    | true => simp
    | false =>
      have hmoved := h.moved
      simpa using hmoved
  · simp only [List.getLast?_append,List.getLast?_singleton,Option.some_or,Option.bind_some]
    intro hs r hr
    rcases List.mem_append.mp hr with hr | hr
    · exact hsteady hs r hr
    · rw [List.mem_singleton.mp hr]
      exact hs
  · rw [hmongoc]
    exact h.upcoming.next

theorem Tracks.same (h : l.Tracks L U) {run : CursorRun} (hindependent : run.Independent L U)
    (hmongoc : run.cursor.mongoc = l.run.cursor.mongoc)
    (hadvanced : run.cursor.advanced = l.run.cursor.advanced)
    (hcurrent : run.cursor.current = l.run.cursor.current) :
    Tracks L U ⟨run,l.replies ++ [],l.moved⟩ := by
  rw [List.append_nil]
  refine ⟨hindependent,?_,?_,?_,?_,h.steady,?_⟩
  · rw [hadvanced,hcurrent]
    exact h.position
  · rw [hadvanced,hcurrent]
    exact h.untouched
  · rw [hmongoc]
    exact h.last
  · rw [hcurrent]
    exact h.moved
  · rw [hmongoc]
    exact h.upcoming

theorem Tracks.step (h : l.Tracks L U) (call : IteratorCall) (hadmissible : l.Admissible L U call)
    (hsteady : l.Steady call) : (l.after L U call).Tracks L U := by
  cases call with
  | valid => exact h
  | key => exact h
  | call c =>
    obtain ⟨method,freed,reenters⟩ := c
    have hindependent := CursorRun.call_independent method h.independent hadmissible.2
    cases method with
    | current => exact h.same h.independent rfl rfl rfl
    | setTypeMap parsed =>
      obtain ⟨hmongoc,hadvanced,hcurrent⟩ := l.run.cursor.setTypeMap_position L U freed parsed
      have hcursor : (l.run.call L U freed (.setTypeMap parsed)).cursor =
          (l.run.cursor.setTypeMap L U parsed freed).1 := by
        cases parsed <;> rfl
      rw [← hcursor] at hmongoc hadvanced hcurrent
      exact h.same hindependent hmongoc hadvanced hcurrent
    | next =>
      obtain ⟨hmongoc,hadvanced,hcurrent⟩ := l.run.cursor.next_position L U freed
      exact h.answer hindependent hmongoc hadvanced hcurrent rfl
        (hsteady _ (List.mem_singleton.mpr rfl))
    | rewind =>
      obtain ⟨hmongoc,hadvanced,hcurrent⟩ := l.run.cursor.rewind_position L U freed
      have hcursor : (l.run.call L U freed .rewind).cursor =
          (l.run.cursor.rewind L U freed).1 := by
        unfold CursorRun.call
        dsimp only
        split <;> rfl
      rw [← hcursor] at hmongoc hadvanced hcurrent
      unfold after answersTo movedBy
      dsimp only
      cases ha : l.run.cursor.advanced with
      | true =>
        rw [ha,if_pos rfl] at hmongoc
        exact h.same hindependent hmongoc (hadvanced.trans ha.symm) hcurrent
      | false =>
        rw [ha,if_neg (by simp)] at hmongoc
        refine h.answer hindependent hmongoc hadvanced (by rw [hcurrent,ha]; rfl) (by simp [ha]) ?_
        refine hsteady _ ?_
        simp [answers,answersTo,ha]

theorem reenters_of_admissible {call : IteratorCall} (h : l.Admissible L U call) :
    call.reenters = false := by
  cases call with
  | call c => exact h.1
  | valid => rfl
  | key => rfl

theorem Tracks.followsProtocol (h : l.Tracks L U) : l.FollowsProtocol L U := by
  have hadvanced : 0 < l.run.cursor.current → l.run.cursor.advanced = true := fun hpos => by
    by_contra hf
    have hzero := (h.untouched (by simpa using hf)).2
    omega
  have hkept : ∀ freed, l.moved = true →
      l.run.cursor.rewind L U freed = (l.run.cursor,[Cursor.rewindException]) :=
    fun freed hmoved => by
      have hpos := h.moved.mp hmoved
      exact Cursor.rewind_moved L U freed _ (hadvanced hpos) hpos
  refine ⟨fun hvalid => ?_,fun freed hfreed => ⟨fun hmem => ?_,fun hmoved => ?_⟩,
    fun freed hmoved => by rw [hkept freed hmoved]⟩
  · have hundef := h.independent.shows.undef
    have hvalue := h.independent.shows.value
    unfold Cursor.valid at hvalid
    cases hvisited : l.run.visited with
    | none => simp [hvisited,hundef] at hvalid
    | some input =>
      have hcurrent := h.independent.visited input hvisited
      rw [h.last] at hcurrent
      have hreplies : l.replies ≠ [] := fun hnil => by simp [hnil] at hcurrent
      have ha : l.run.cursor.advanced = true := by
        by_contra hf
        exact hreplies (h.untouched (by simpa using hf)).1
      have hlength : l.delivered.length = l.replies.length := by
        rw [delivered,List.length_filterMap_eq_countP,List.countP_eq_length]
        exact h.steady (by rw [hcurrent]; rfl)
      refine ⟨input,l.run.cursor.current,?_,?_,?_,hlength.trans (h.position ha).symm⟩
      · obtain ⟨r,hr,hdocument⟩ := Option.bind_eq_some_iff.mp hcurrent
        obtain ⟨front,hfront⟩ := List.getLast?_eq_some_iff.mp hr
        rw [delivered,hfront]
        simp [hdocument]
      · rw [hvalue,CursorRun.expected,hvisited]
      · simpa [Cursor.key] using hvalid
  · by_contra hnot
    have hzero : l.run.cursor.current = 0 := by
      have hmoved := h.moved
      by_contra hne
      exact hnot (hmoved.mpr (Nat.pos_of_ne_zero hne))
    exact Cursor.rewindException_notMem L U _ hzero h.upcoming hfreed hmem
  · rw [hkept freed hmoved]
    exact List.mem_singleton.mpr rfl

end CursorLog

end Phongo
