import Mathlib.Tactic.Common
import Mathlib.Logic.Function.Basic

/-! Client sessions and the objects that reach them.
A `mongoc_client_session_t` is destroyed by `Session::endSession` or with its Session object;
options of the execute methods and cursors lead to it as well. Userland code that the driver
runs in the middle of a method, from `bsonSerialize()` to command subscribers, may call any
other method, so such a method is two steps with a frame between them. -/
namespace Phongo

/-- The methods of `MongoDB\Driver\Session` that begin with `SESSION_CHECK_LIVELINESS`. -/
inductive SessionMethod
  | abortTransaction | advanceClusterTime | advanceOperationTime | commitTransaction
  | getClusterTime | getLogicalSessionId | getOperationTime | getServer | getTransactionOptions
  | getTransactionState | isInTransaction | startTransaction
  deriving DecidableEq

/-- Whether the arguments are converted by userland code between check and use. -/
def SessionMethod.convertsArguments : SessionMethod → Bool
  | .advanceClusterTime | .advanceOperationTime | .startTransaction => true
  | _ => false

/-- The functions of libmongoc that work on a client session. -/
inductive SessionFunction
  | destroy | getClient | getServerId | append | setClientSession | command | find | getMore
  | killCursors
  | accessor (method : SessionMethod)
  deriving DecidableEq

inductive SessionEvent
  /-- a call of libmongoc, with the session given and whether that was still alive -/
  | call (function : SessionFunction) (session : Option ℕ) (live : Bool)
  /-- `mongoc_client_session_destroy` frees the session, and whether that was still alive -/
  | freed (session : ℕ) (live : Bool)
  /-- an operation on an ended Session, and whether it threw -/
  | ended (threw : Bool)
  deriving DecidableEq

namespace SessionEvent

def IsSafe : SessionEvent → Prop
  | .call _ session live => session.isSome = true ∧ live = true
  | .freed _ live => live = true
  | .ended threw => threw = true

instance : DecidablePred IsSafe := fun e => by
  cases e <;> unfold IsSafe <;> infer_instance

end SessionEvent

/-- `php_phongo_session_t` -/
structure Session where
  clientSession : Option ℕ
  /-- the client of its Manager -/
  client : ℕ
  deriving DecidableEq

/-- `php_phongo_cursor_t` as far as sessions go. -/
structure SessionCursor where
  /-- the Session object it keeps alive -/
  session : Option ℕ
  /-- the client session its `mongoc_cursor_t` was created with -/
  mongocSession : Option ℕ
  /-- `mongoc_cursor_get_id` is not zero -/
  hasId : Bool
  advanced : Bool
  current : ℕ
  deriving DecidableEq

/-- The position after a call of `Cursor::next`. -/
def SessionCursor.move (cursor : SessionCursor) : SessionCursor :=
  if cursor.advanced then { cursor with current := cursor.current + 1 }
  else { cursor with advanced := true }

@[simp] theorem SessionCursor.session_move (c : SessionCursor) : c.move.session = c.session := by
  unfold move; split <;> rfl

@[simp] theorem SessionCursor.mongocSession_move (c : SessionCursor) :
    c.move.mongocSession = c.mongocSession := by
  unfold move; split <;> rfl

@[simp] theorem SessionCursor.hasId_move (c : SessionCursor) : c.move.hasId = c.hasId := by
  unfold move; split <;> rfl

/-- A method of the driver that waits for userland code. -/
inductive SessionFrame
  | method (m : SessionMethod) (sid : ℕ)
  | command (zsession : Option ℕ)
  | query (zsession : Option ℕ) (mongocSession : Option ℕ)
  | bulkWrite (zsession : Option ℕ)
  /-- `endSession`, whose `mongoc_client_session_destroy` aborts a transaction first -/
  | endSession (sid session : ℕ)
  /-- the same when the object is freed, which nothing else refers to any more -/
  | freeSession (sid session : ℕ)
  deriving DecidableEq

def SessionFrame.session : SessionFrame → Option ℕ
  | .method _ sid | .endSession sid _ | .freeSession sid _ => some sid
  | .command zsession | .query zsession _ | .bulkWrite zsession => zsession

structure SessionHeap where
  sessions : ℕ → Option Session
  cursors : ℕ → Option SessionCursor
  /-- client sessions not yet destroyed -/
  live : List ℕ
  frames : List SessionFrame
  /-- a number no object or client session has -/
  fresh : ℕ
  log : List SessionEvent

inductive SessionOption
  | absent
  /-- options of a wrong type, or no Session -/
  | invalid
  | session (sid : ℕ)
  deriving DecidableEq

inductive ExecuteKind
  | command | query | bulkWrite
  deriving DecidableEq

/-- Where an execute method throws for a reason of its own. -/
inductive ExecuteStop
  | readPreference | serverSelection | beforeSession | append | afterSession
  | afterImplicitSession
  deriving DecidableEq

/-- A call of an execute method, with the answers it gets on its way. -/
structure Execution where
  /-- of a Manager, else of a Server -/
  ofManager : Bool
  client : ℕ
  option : SessionOption
  kind : ExecuteKind
  /-- the session is pinned to a server -/
  pinned : Bool
  unacknowledgedWriteConcern : Bool
  /-- `phongo_create_implicit_session` gets a session -/
  implicitSession : Bool
  stop : Option ExecuteStop
  deriving DecidableEq

/-- Whether `phongo_parse_session` is given options to append to, and then succeeds in it. -/
def Execution.append (x : Execution) : Option Bool :=
  match x.kind with
  | .bulkWrite => none
  | _ => some (x.stop ≠ some .append)

/-- Whether the call gets as far as its "session" option. -/
def Execution.readsSession (x : Execution) : Bool := x.ofManager || x.stop ≠ some .beforeSession

/-- How a frame goes on when the userland code has returned. -/
inductive SessionReply
  /-- an exception is pending, or the server answered with an error; the cursor of a query may
  have an id all the same -/
  | failed (hasId : Bool)
  /-- the conversion or the command succeeded; a command's reply may hold a cursor -/
  | succeeded (hasCursor hasId : Bool)
  /-- a cursor in the reply, to whose options the session cannot be appended -/
  | appendFailed
  deriving DecidableEq

namespace SessionHeap

def init : SessionHeap := ⟨fun _ => none,fun _ => none,[],[],0,[]⟩

/-- `Z_SESSION_OBJ_P(zsession)->client_session` -/
def clientSession (s : SessionHeap) (sid : ℕ) : Option ℕ := (s.sessions sid).bind (·.clientSession)

def isEnded (s : SessionHeap) (sid : ℕ) : Bool := (s.clientSession sid).isNone

def callWith (function : SessionFunction) (session : Option ℕ) (s : SessionHeap) : SessionHeap :=
  { s with log := .call function session (session.any (· ∈ s.live))::s.log }

def logEnded (threw : Bool) (s : SessionHeap) : SessionHeap := { s with log := .ended threw::s.log }

def noteEnded (sid : ℕ) (s : SessionHeap) : SessionHeap :=
  if s.isEnded sid then s.logEnded false else s

def push (frame : SessionFrame) (s : SessionHeap) : SessionHeap :=
  { s with frames := frame::s.frames }

/-- `mongoc_client_start_session` and `phongo_session_init` -/
def newSession (client : ℕ) (s : SessionHeap) : SessionHeap :=
  { s with
    sessions := Function.update s.sessions s.fresh (some ⟨some (s.fresh + 1),client⟩)
    live := (s.fresh + 1)::s.live
    fresh := s.fresh + 2 }

def newCursor (cursor : SessionCursor) (s : SessionHeap) : SessionHeap :=
  { s with cursors := Function.update s.cursors s.fresh (some cursor), fresh := s.fresh + 1 }

/-- `Manager::startSession` once its options are accepted. -/
def startSession (client : ℕ) (started : Bool) (s : SessionHeap) : SessionHeap :=
  if started then s.newSession client else s

/-- How `mongoc_client_session_destroy` ends. -/
def free (session : ℕ) (s : SessionHeap) : SessionHeap :=
  { s with
    live := s.live.filter (· ≠ session)
    log := .freed session (session ∈ s.live)::s.log }

/-- `endSession` once its client session is freed -/
def finishEndSession (sid session : ℕ) (s : SessionHeap) : SessionHeap :=
  { s.free session with
    sessions := Function.update s.sessions sid
      ((s.sessions sid).map fun o => { o with clientSession := none }) }

/-- `Session::endSession`; `aborts` says that `mongoc_client_session_destroy` aborts a running
transaction, of which command subscribers are told. -/
def endSession (sid : ℕ) (aborts : Bool) (s : SessionHeap) : Option SessionHeap :=
  (s.sessions sid).map fun o =>
    match o.clientSession with
    | none => (s.logEnded false).callWith .destroy none
    | some r =>
      let s := s.callWith .destroy (some r)
      if aborts then s.push (.endSession sid r) else s.finishEndSession sid r

/-- The other methods of a Session, up to the conversion of their arguments. -/
def callMethod (m : SessionMethod) (sid : ℕ) (s : SessionHeap) : Option SessionHeap :=
  (s.sessions sid).map fun o =>
    match o.clientSession with
    | none => s.logEnded true
    | some r =>
      if m.convertsArguments then s.push (.method m sid) else s.callWith (.accessor m) (some r)

/-- `phongo_parse_session`; `append` is given with `mongoc_opts` and says whether appending
succeeds. A null session leaves nothing defined once libmongoc has been called. -/
def parseSession (client : ℕ) (option : SessionOption) (append : Option Bool) (s : SessionHeap) :
    Bool × SessionHeap :=
  match option with
  | .absent => (true,s)
  | .invalid => (false,s)
  | .session sid =>
    let session := s.clientSession sid
    let s := (s.noteEnded sid).callWith .getClient session
    if (s.sessions sid).map (·.client) ≠ some client then (false,s)
    else
      match append with
      | none => (true,s)
      | some appended => (appended,s.callWith .append session)

/-- `php_phongo_manager_select_server` -/
def selectServer (x : Execution) (s : SessionHeap) : Bool × SessionHeap :=
  match x.option with
  | .session sid =>
    let s := s.callWith .getServerId (s.clientSession sid)
    if x.pinned then (true,s.callWith .getServerId (s.clientSession sid))
    else (x.stop ≠ some .serverSelection,s)
  | _ => (x.stop ≠ some .serverSelection,s)

/-- What a Manager does before `phongo_execute_*`. -/
def prepareExecute (x : Execution) (s : SessionHeap) : Bool × SessionHeap :=
  let (parsed,s) := s.parseSession x.client x.option none
  if !parsed || x.stop = some .readPreference then (false,s) else s.selectServer x

/-- `phongo_execute_command` up to the command: an explicit session, or an implicit one. -/
def sendCommand (x : Execution) (s : SessionHeap) : SessionHeap :=
  match x.option with
  | .session sid =>
    if x.unacknowledgedWriteConcern then s
    else (s.callWith .command (s.clientSession sid)).push (.command (some sid))
  | _ =>
    if x.unacknowledgedWriteConcern || !x.implicitSession then s.push (.command none)
    else
      let sid := s.fresh
      let s := s.newSession x.client
      let s := s.callWith .append (s.clientSession sid)
      if x.stop = some .afterImplicitSession then s
      else (s.callWith .command (s.clientSession sid)).push (.command (some sid))

/-- `phongo_execute_query` up to the first `mongoc_cursor_next`. -/
def sendQuery (x : Execution) (s : SessionHeap) : SessionHeap :=
  match x.option with
  | .session sid =>
    (s.callWith .find (s.clientSession sid)).push (.query (some sid) (s.clientSession sid))
  | _ => s.push (.query none none)

/-- `phongo_execute_bulk_write` up to `mongoc_bulk_operation_execute`. -/
def sendBulkWrite (x : Execution) (s : SessionHeap) : SessionHeap :=
  match x.option with
  | .session sid =>
    if x.unacknowledgedWriteConcern then s
    else (s.callWith .setClientSession (s.clientSession sid)).push (.bulkWrite (some sid))
  | _ => s.push (.bulkWrite none)

/-- `phongo_execute_command`, `phongo_execute_query` and `phongo_execute_bulk_write`, which look
at the options once more. -/
def phongoExecute (x : Execution) (s : SessionHeap) : SessionHeap :=
  if x.stop = some .beforeSession then s
  else
    let (parsed,s) := s.parseSession x.client x.option x.append
    if !parsed || x.stop = some .afterSession then s
    else
      match x.kind with
      | .command => s.sendCommand x
      | .query => s.sendQuery x
      | .bulkWrite => s.sendBulkWrite x

def hasSession (option : SessionOption) (s : SessionHeap) : Bool :=
  match option with
  | .session sid => (s.sessions sid).isSome
  | _ => true

/-- The execute methods of Manager and Server, up to the command. -/
def execute (x : Execution) (s : SessionHeap) : Option SessionHeap :=
  if s.hasSession x.option then
    let (prepared,s) := if x.ofManager then s.prepareExecute x else (true,s)
    some (if prepared then s.phongoExecute x else s)
  else none

/-- `php_phongo_session_free_object` once its client session is freed -/
def finishFreeSession (sid session : ℕ) (s : SessionHeap) : SessionHeap :=
  { s.free session with sessions := Function.update s.sessions sid none }

/-- `mongoc_cursor_destroy`: a cursor that has an id is killed on the server. -/
def destroyCursor (mongocSession : Option ℕ) (hasId : Bool) (s : SessionHeap) : SessionHeap :=
  match mongocSession with
  | some r => if hasId then s.callWith .killCursors (some r) else s
  | none => s

theorem destroyCursor_eq (s : SessionHeap) (mongocSession : Option ℕ) (hasId : Bool) :
    s.destroyCursor mongocSession hasId = s ∨
      ∃ r, s.destroyCursor mongocSession hasId = s.callWith .killCursors (some r) := by
  unfold destroyCursor
  cases mongocSession with
  | none => exact .inl rfl
  | some r =>
    cases hasId with
    | false => exact .inl rfl
    | true => exact .inr ⟨r,rfl⟩

@[simp] theorem cursors_destroyCursor (s : SessionHeap) (mongocSession : Option ℕ) (hasId : Bool) :
    (s.destroyCursor mongocSession hasId).cursors = s.cursors := by
  rcases s.destroyCursor_eq mongocSession hasId with h | ⟨r,h⟩
  · rw [h]
  · rw [h]
    rfl

@[simp] theorem frames_destroyCursor (s : SessionHeap) (mongocSession : Option ℕ) (hasId : Bool) :
    (s.destroyCursor mongocSession hasId).frames = s.frames := by
  rcases s.destroyCursor_eq mongocSession hasId with h | ⟨r,h⟩
  · rw [h]
  · rw [h]
    rfl

@[simp] theorem fresh_destroyCursor (s : SessionHeap) (mongocSession : Option ℕ) (hasId : Bool) :
    (s.destroyCursor mongocSession hasId).fresh = s.fresh := by
  rcases s.destroyCursor_eq mongocSession hasId with h | ⟨r,h⟩
  · rw [h]
  · rw [h]
    rfl

def resume (reply : SessionReply) (s : SessionHeap) : Option SessionHeap :=
  match s.frames with
  | [] => none
  | frame::frames =>
    let s := { s with frames := frames }
    some <| match reply, frame with
    | _, .endSession sid r => s.finishEndSession sid r
    | _, .freeSession sid r => s.finishFreeSession sid r
    | .failed hasId, .query _ mongocSession => s.destroyCursor mongocSession hasId
    | .failed _, _ => s
    | .appendFailed, .command (some sid) => s.callWith .append (s.clientSession sid)
    | .appendFailed, _ => s
    | .succeeded _ _, .method m sid => s.callWith (.accessor m) (s.clientSession sid)
    | .succeeded _ _, .bulkWrite _ => s
    | .succeeded _ hasId, .query zsession mongocSession =>
      s.newCursor ⟨zsession,mongocSession,hasId,true,0⟩
    | .succeeded true hasId, .command (some sid) =>
      (s.callWith .append (s.clientSession sid)).newCursor
        ⟨some sid,s.clientSession sid,hasId,false,0⟩
    | .succeeded true hasId, .command none => s.newCursor ⟨none,none,hasId,false,0⟩
    | .succeeded false _, .command zsession => s.newCursor ⟨zsession,none,false,false,0⟩

/-- `mongoc_cursor_next`: a getMore, which only a cursor with an id sends, uses the session. -/
def mongocNext (cid : ℕ) (cursor : SessionCursor) (getMore hasId : Bool) (s : SessionHeap) :
    SessionHeap :=
  let s :=
    if getMore && cursor.hasId then
      match cursor.mongocSession with
      | some r => s.callWith .getMore (some r)
      | none => s
    else s
  { s with
    cursors := Function.update s.cursors cid
      (some { cursor with hasId := cursor.hasId && hasId }) }

/-- `php_phongo_cursor_free_session_if_exhausted` -/
def freeSessionIfExhausted (cid : ℕ) (s : SessionHeap) : SessionHeap :=
  match s.cursors cid with
  | some cursor =>
    if cursor.hasId then s
    else { s with cursors := Function.update s.cursors cid (some { cursor with session := none }) }
  | none => s

/-- `Cursor::next` -/
def next (cid : ℕ) (getMore hasId : Bool) (s : SessionHeap) : Option SessionHeap :=
  (s.cursors cid).map fun cursor =>
    (s.mongocNext cid cursor.move getMore hasId).freeSessionIfExhausted cid

/-- `Cursor::rewind`; `error` is what `phongo_cursor_advance_and_check_for_error` finds. -/
def rewind (cid : ℕ) (getMore hasId error : Bool) (s : SessionHeap) : Option SessionHeap :=
  (s.cursors cid).map fun cursor =>
    if cursor.advanced then
      if cursor.current > 0 then s else s.freeSessionIfExhausted cid
    else
      let s := s.mongocNext cid { cursor with advanced := true } getMore hasId
      if error then s
      else if cursor.current > 0 then s
      else s.freeSessionIfExhausted cid

def Unreferenced (s : SessionHeap) (sid : ℕ) : Prop :=
  (∀ cid cursor, s.cursors cid = some cursor → cursor.session ≠ some sid) ∧
    ∀ frame ∈ s.frames, frame.session ≠ some sid

def Freeing (s : SessionHeap) (sid : ℕ) : Prop := ∃ r, .freeSession sid r ∈ s.frames

/-- `php_phongo_session_free_object` -/
def freeSession (sid : ℕ) (aborts : Bool) (s : SessionHeap) : Option SessionHeap :=
  (s.sessions sid).map fun o =>
    match o.clientSession with
    | none => { s with sessions := Function.update s.sessions sid none }
    | some r =>
      let s := s.callWith .destroy (some r)
      if aborts then s.push (.freeSession sid r) else s.finishFreeSession sid r

/-- `php_phongo_cursor_free_object`; in a process other than the one that made the cursor the
client is reset and nothing is sent. -/
def freeCursor (cid : ℕ) (samePid : Bool) (s : SessionHeap) : Option SessionHeap :=
  (s.cursors cid).map fun cursor =>
    { s.destroyCursor cursor.mongocSession (samePid && cursor.hasId) with
      cursors := Function.update s.cursors cid none }

end SessionHeap

inductive SessionOp
  | startSession (client : ℕ) (started : Bool)
  | endSession (sid : ℕ) (aborts : Bool)
  | callMethod (m : SessionMethod) (sid : ℕ)
  | execute (x : Execution)
  | resume (reply : SessionReply)
  | next (cid : ℕ) (getMore hasId : Bool)
  | rewind (cid : ℕ) (getMore hasId error : Bool)
  | freeSession (sid : ℕ) (aborts : Bool)
  | freeCursor (cid : ℕ) (samePid : Bool)

namespace SessionHeap

def run (s : SessionHeap) : SessionOp → Option SessionHeap
  | .startSession client started => some (s.startSession client started)
  | .endSession sid aborts => s.endSession sid aborts
  | .callMethod m sid => s.callMethod m sid
  | .execute x => s.execute x
  | .resume reply => s.resume reply
  | .next cid getMore hasId => s.next cid getMore hasId
  | .rewind cid getMore hasId error => s.rewind cid getMore hasId error
  | .freeSession sid aborts => s.freeSession sid aborts
  | .freeCursor cid samePid => s.freeCursor cid samePid

/-- An object is freed only when nothing refers to it, and not used after that. -/
def Enabled (s : SessionHeap) : SessionOp → Prop
  | .freeSession sid _ => s.Unreferenced sid
  | .endSession sid _ | .callMethod _ sid => ¬ s.Freeing sid
  | .execute x => ∀ sid, x.option = .session sid → ¬ s.Freeing sid
  | _ => True

def Step (s : SessionHeap) (op : SessionOp) (t : SessionHeap) : Prop :=
  s.Enabled op ∧ s.run op = some t

def OptionAllowed (s : SessionHeap) (option : SessionOption) : Prop :=
  ∀ sid, option = .session sid → s.isEnded sid = false

/-- What the cursor sends, a getMore or killCursors, does not outlive the Session it was created
with. -/
def SendAllowed (s : SessionHeap) (cid : ℕ) (sends : Bool) : Prop :=
  ∀ cursor sid, s.cursors cid = some cursor → sends = true → cursor.hasId = true →
    cursor.session = some sid → s.isEnded sid = false

def notAdvanced (s : SessionHeap) (cid : ℕ) : Bool := (s.cursors cid).any fun c => !c.advanced

/-- What the driver leaves to its user: no Session is handed to an execute method, ended once
more or needed by a cursor after it was ended, and none is ended by the userland code that a
method of it, a command or the abort of its transaction waits for. -/
def Allowed (s : SessionHeap) : SessionOp → Prop
  | .endSession sid _ => s.isEnded sid = false
  | .execute x => x.readsSession = true → s.OptionAllowed x.option
  | .resume reply =>
    match reply,s.frames with
    | _,.endSession sid _::_ => s.isEnded sid = false
    | _,.freeSession sid _::_ => s.isEnded sid = false
    | .failed true,.query (some sid) _::_ => s.isEnded sid = false
    | .succeeded _ _,.method _ sid::_ => s.isEnded sid = false
    | .succeeded true _,.command (some sid)::_ => s.isEnded sid = false
    | .appendFailed,.command (some sid)::_ => s.isEnded sid = false
    | _,_ => True
  | .next cid getMore _ => s.SendAllowed cid getMore
  | .rewind cid getMore _ _ => s.SendAllowed cid (getMore && s.notAdvanced cid)
  | .freeCursor cid samePid => s.SendAllowed cid samePid
  | _ => True

end SessionHeap

end Phongo
