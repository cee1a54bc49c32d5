import Mathlib.Tactic.Common
import Phongo.Command.Construct
import Phongo.Command.Options

/-! `phongo_execute_command`: what libmongoc is given to send, and to make a cursor of the reply.
A command and the getMore commands of its cursor go to one server, in one session. -/
namespace Phongo
open OrderedTable Throwing

structure CommandCall (Rc Rp Wc : Type) where
  type : CommandType
  client : ℕ
  db : CString
  command : Command
  options : OptionsArgument Rc Rp Wc

structure CommandParts (Rp : Type) where
  opts : Doc
  readPreference : Option Rp
  session : Option SessionObject
  unacknowledged : Bool

/-- A call of `mongoc_cursor_new_from_command_reply_with_opts` -/
structure NewCursor where
  client : ℕ
  reply : Doc
  opts : Doc

structure CommandCursor (Rp : Type) where
  database : CString
  command : Command
  readPreference : Option Rp
  session : Option SessionObject

/-- How an execution ends, with what it asked libmongoc for. -/
structure CommandOutcome (Rp : Type) where
  /-- the implicit session -/
  started : Option SessionObject
  sent : Option (SentCommand Rp)
  cursor : Option NewCursor
  result : Throws (CommandCursor Rp)

/-- `create_wrapped_command_envelope` -/
def wrappedCommandEnvelope (db : CString) (reply : Doc) : Doc :=
  [(CString.lit "cursor",.document
    [(CString.lit "id",.int64 0),(CString.lit "ns",.utf8 (db.bytes ++ ascii ".$cmd")),
      (CString.lit "firstBatch",.array [(CString.lit "0",.document reply)])])]

/-- The options of a cursor that do not depend on the session. -/
def Command.cursorOpts (command : Command) (serverId : UInt32) : Doc :=
  (serverIdName,.int32 serverId.toInt32) ::
    (if command.maxAwaitTimeMs ≠ 0 then
      [(CString.lit "awaitData",.bool true),
        (CString.lit "maxAwaitTimeMS",.int64 command.maxAwaitTimeMs.toUInt64.toInt64),
        (CString.lit "tailable",.bool true)]
    else []) ++
    if command.batchSize ≠ 0 then
      [(CString.lit "batchSize",.int64 command.batchSize.toUInt64.toInt64)]
    else []

namespace MongocExecution
variable {Rc Rp Wc : Type} (M : MongocExecution Rc Rp Wc)

def isUnacknowledgedWriteConcern (call : CommandCall Rc Rp Wc) : Option Wc → Bool
  | some wc => ! M.isAcknowledged wc
  | none => call.type ≠ .raw && ! M.isAcknowledged (M.clientGetWriteConcern call.client)

/-- `phongo_execute_command` as far as it looks at the options. -/
def parseCommandOptions (call : CommandCall Rc Rp Wc) : Throws (CommandParts Rp) := do
  let opts ← (if call.type.has optionReadConcern then call.options.parseReadConcern M []
    else pure [])
  let readPreference ← (if call.type.has optionReadPreference then call.options.parseReadPreference
    else pure none)
  let (session,opts) ← call.options.parseSessionInto M call.client opts
  let (unacknowledged,opts) ← (if call.type.has optionWriteConcern then do
      let (writeConcern,opts) ← call.options.parseWriteConcern M opts
      pure (M.isUnacknowledgedWriteConcern call writeConcern,opts)
    else pure (false,opts))
  if session.isSome && unacknowledged then .error unacknowledgedSession
  else return ⟨opts,readPreference,session,unacknowledged⟩

/-- `phongo_session_init` -/
def sessionInit (clientSession : ℕ) : SessionObject := ⟨M.objectInit,some clientSession⟩

/-- `phongo_create_implicit_session` -/
def createImplicitSession (client : ℕ) : Option SessionObject :=
  (M.clientStartSession client).map M.sessionInit

/-- The implicit session, where one is needed and libmongoc has one. -/
def implicitSession (call : CommandCall Rc Rp Wc) (parts : CommandParts Rp) :
    Option SessionObject :=
  if parts.session.isNone && ! parts.unacknowledged then M.createImplicitSession call.client
  else none

def finishOpts (serverId : UInt32) (parts : CommandParts Rp) (started : Option SessionObject) :
    Throws Doc := do
  let opts ← (match started with
    | none => pure parts.opts
    | some s =>
      match M.sessionAppend s.clientSession parts.opts with
      | .ok opts => pure opts
      | .error _ =>
        .error (invalidArgument "Error appending implicit \"sessionId\" option" []))
  match M.serverIdAppend serverId opts with
  | some opts => return opts
  | none => .error (invalidArgument "Error appending \"serverId\" option" [])

/-- `mongoc_client_write_command_with_opts` takes no read preference, and
`mongoc_client_read_write_command_with_opts` is given none. -/
def commandReadPrefs (type : CommandType) (readPreference : Option Rp) : Option Rp :=
  match type with
  | .raw | .read => readPreference
  | .write | .readWrite => none

def cursorOf (call : CommandCall Rc Rp Wc) (serverId : UInt32) (session : Option SessionObject)
    (reply : Doc) : Throws NewCursor :=
  match iterFind (CString.lit "cursor") reply with
  | some (.document _) =>
    match session with
    | none => .ok ⟨call.client,reply,call.command.cursorOpts serverId⟩
    | some s =>
      match M.sessionAppend s.clientSession (call.command.cursorOpts serverId) with
      | .ok opts => .ok ⟨call.client,reply,opts⟩
      | .error error => .error (M.exceptionOf error none)
  | _ => .ok ⟨call.client,wrappedCommandEnvelope call.db reply,
      [(serverIdName,.int32 serverId.toInt32)]⟩

/-- `phongo_execute_command` from the command on. -/
def sendCommand (call : CommandCall Rc Rp Wc) (serverId : UInt32) (parts : CommandParts Rp)
    (started : Option SessionObject) (sent : SentCommand Rp) : CommandOutcome Rp :=
  match M.command sent with
  | .error (error,reply) => ⟨started,some sent,none,.error (M.exceptionOf error (some reply))⟩
  | .ok reply =>
    let session := parts.session.or started
    match M.cursorOf call serverId session reply with
    | .error e => ⟨started,some sent,none,.error e⟩
    | .ok new =>
      ⟨started,some sent,some new,.ok ⟨call.db,call.command,parts.readPreference,session⟩⟩

/-- `phongo_execute_command` -/
def executeCommand (call : CommandCall Rc Rp Wc) (serverId : UInt32) : CommandOutcome Rp :=
  match M.parseCommandOptions call with
  | .error e => ⟨none,none,none,.error e⟩
  | .ok parts =>
    let started := M.implicitSession call parts
    match M.finishOpts serverId parts started with
    | .error e => ⟨started,none,none,.error e⟩
    | .ok opts => M.sendCommand call serverId parts started ⟨call.type,call.client,call.db,
        call.command.bson,commandReadPrefs call.type parts.readPreference,opts⟩

def Unacknowledged (call : CommandCall Rc Rp Wc) : Prop :=
  call.type.has optionWriteConcern = true ∧ M.isUnacknowledgedWriteConcern call
    (call.options.given OptionArray.writeConcern OptionObject.writeConcern?) = true

variable {M} {sessionId : Option ℕ → Int64} {call : CommandCall Rc Rp Wc} {parts : CommandParts Rp}
  {opts : Doc} {serverId : UInt32} {started : Option SessionObject}

theorem parseCommandOptions_eq_ok (hM : M.Lawful sessionId)
    (h : M.parseCommandOptions call = .ok parts) :
    (∃ readConcern writeConcern,
      parts.opts = present [(readConcernName,readConcern),
        (sessionIdName,parts.session.map fun s => .int64 (sessionId s.clientSession)),
        (writeConcernName,writeConcern)] ∧
      (call.type.has optionReadConcern = false → readConcern = none) ∧
      (call.type.has optionWriteConcern = false → writeConcern = none)) ∧
    call.options.parseSession M call.client = .ok parts.session ∧
    (parts.unacknowledged = true ↔ M.Unacknowledged call) ∧
    (parts.unacknowledged = true → parts.session = none) := by
  obtain ⟨opts₁,hread,h⟩ := bind_eq_ok.mp h
  obtain ⟨readPreference,-,h⟩ := bind_eq_ok.mp h
  obtain ⟨⟨session,opts₂⟩,hsession,h⟩ := bind_eq_ok.mp h
  obtain ⟨⟨unacknowledged,opts₃⟩,hwrite,h⟩ := bind_eq_ok.mp h
  obtain ⟨hparsed,hopts₂⟩ := OptionsArgument.parseSessionInto_eq_ok hM hsession
  have hopts₁ : ∃ readConcern, opts₁ = present [(readConcernName,readConcern)] ∧
      (call.type.has optionReadConcern = false → readConcern = none) := by
    split at hread
    · rename_i hhas
      obtain ⟨v,hv⟩ := OptionsArgument.parseReadConcern_eq_ok hM hread
      exact ⟨v,hv,fun hnot => by simp [hhas] at hnot⟩
    · cases hread
      exact ⟨none,rfl,fun _ => rfl⟩
  have hopts₃ : ∃ writeConcern, opts₃ = opts₂ ++ present [(writeConcernName,writeConcern)] ∧
      (call.type.has optionWriteConcern = false → writeConcern = none) ∧
      (unacknowledged = true ↔ M.Unacknowledged call) := by
    unfold Unacknowledged
    split at hwrite
    · rename_i hhas
      obtain ⟨⟨writeConcern,opts⟩,hparse,hpure⟩ := bind_eq_ok.mp hwrite
      obtain ⟨rfl,v,hv⟩ := OptionsArgument.parseWriteConcern_eq_ok hM hparse
      cases hpure
      exact ⟨v,hv,fun hnot => by simp [hhas] at hnot,by simp [hhas]⟩
    · rename_i hhas
      cases hwrite
      exact ⟨none,by simp [present_absent],fun _ => rfl,by simp [hhas]⟩
  obtain ⟨readConcern,rfl,hreadNone⟩ := hopts₁
  obtain ⟨writeConcern,rfl,hwriteNone,hunack⟩ := hopts₃
  dsimp only at h
  split at h
  · cases h
  · rename_i hboth
    cases h
    refine ⟨⟨readConcern,writeConcern,?_,hreadNone,hwriteNone⟩,hparsed,hunack,fun hu => ?_⟩
    · rw [hopts₂,← present_append,← present_append]
      rfl
    · cases session with
      | none => rfl
      | some s =>
        have hu : unacknowledged = true := hu
        simp [hu] at hboth

theorem finishOpts_eq_ok (hM : M.Lawful sessionId) (h : M.finishOpts serverId parts started = .ok opts) :
    opts = parts.opts ++ present
      [(sessionIdName,started.map fun s => .int64 (sessionId s.clientSession)),
        (serverIdName,some (.int32 serverId.toInt32))] := by
  obtain ⟨opts₁,hstarted,h⟩ := bind_eq_ok.mp h
  have hopts₁ : opts₁ = parts.opts ++ present
      [(sessionIdName,started.map fun s => .int64 (sessionId s.clientSession))] := by
    cases started with
    | none =>
      cases hstarted
      simp [present_absent]
    | some s =>
      cases happend : M.sessionAppend s.clientSession parts.opts with
      | error e =>
        simp only [happend] at hstarted
        cases hstarted
      | ok d =>
        simp only [happend] at hstarted
        cases hstarted
        exact hM.sessionAppend _ _ _ happend
  cases happend : M.serverIdAppend serverId opts₁ with
  | none =>
    simp only [happend] at h
    cases h
  | some d =>
    simp only [happend] at h
    cases h
    rw [hM.serverIdAppend _ _ _ happend,hopts₁,List.append_assoc]
    have hserver : [(serverIdName,BsonValue.int32 serverId.toInt32)] =
        present [(serverIdName,some (.int32 serverId.toInt32))] := rfl
    rw [hserver,← present_append]
    rfl

/-- The options as they are sent, each under a key of its own. -/
theorem finishOpts_present (hM : M.Lawful sessionId)
    (hparts : M.parseCommandOptions call = .ok parts)
    (h : M.finishOpts serverId parts (M.implicitSession call parts) = .ok opts) :
    ∃ (t : Table CString (Option BsonValue)) (readConcern writeConcern : Option BsonValue),
      opts = present t ∧
      (keys t).Perm [readConcernName,sessionIdName,writeConcernName,serverIdName] ∧
      (readConcernName,readConcern) ∈ t ∧ (writeConcernName,writeConcern) ∈ t ∧
      (sessionIdName,(parts.session.or (M.implicitSession call parts)).map fun s =>
        .int64 (sessionId s.clientSession)) ∈ t ∧
      (serverIdName,some (.int32 serverId.toInt32)) ∈ t ∧
      (call.type.has optionReadConcern = false → readConcern = none) ∧
      (call.type.has optionWriteConcern = false → writeConcern = none) := by
  obtain ⟨⟨readConcern,writeConcern,hopts,hread,hwrite⟩,-⟩ := parseCommandOptions_eq_ok hM hparts
  have hfinished := finishOpts_eq_ok hM h
  rw [hopts,← present_append] at hfinished
  cases hsession : parts.session with
  | some s =>
    have hstarted : M.implicitSession call parts = none := by simp [implicitSession,hsession]
    rw [hsession,hstarted] at hfinished
    refine ⟨[(readConcernName,readConcern),
        (sessionIdName,some (.int64 (sessionId s.clientSession))),
        (writeConcernName,writeConcern),(serverIdName,some (.int32 serverId.toInt32))],
      readConcern,writeConcern,hfinished,List.Perm.refl _,?_,?_,?_,?_,hread,hwrite⟩ <;>
    simp [hstarted]
  | none =>
    rw [hsession] at hfinished
    generalize hstarted : (M.implicitSession call parts).map
      (fun s => BsonValue.int64 (sessionId s.clientSession)) = id at hfinished
    refine ⟨[(readConcernName,readConcern),(writeConcernName,writeConcern),(sessionIdName,id),
        (serverIdName,some (.int32 serverId.toInt32))],readConcern,writeConcern,hfinished,
      ?_,?_,?_,?_,?_,hread,hwrite⟩
    · exact (List.Perm.swap _ _ _).cons _
    all_goals simp [hstarted]

/-- Options that go with a command: each once, those that its type has, the server, and the
session. -/
structure SentOptions (sessionId : Option ℕ → Int64) (type : CommandType) (serverId : UInt32)
    (session : Option SessionObject) (opts : Doc) : Prop where
  nodup : (keys opts).Nodup
  known : ∀ key ∈ keys opts, key = sessionIdName ∨ key = serverIdName ∨
    (key = readConcernName ∧ type.has optionReadConcern = true) ∨
    (key = writeConcernName ∧ type.has optionWriteConcern = true)
  server : find? opts serverIdName = some (.int32 serverId.toInt32)
  session : find? opts sessionIdName = session.map fun s => .int64 (sessionId s.clientSession)

theorem finishOpts_sent (hM : M.Lawful sessionId)
    (hparts : M.parseCommandOptions call = .ok parts)
    (h : M.finishOpts serverId parts (M.implicitSession call parts) = .ok opts) :
    SentOptions sessionId call.type serverId (parts.session.or (M.implicitSession call parts))
      opts := by
  obtain ⟨t,readConcern,writeConcern,rfl,hperm,hread,hwrite,hsession,hserver,hnoread,hnowrite⟩ :=
    finishOpts_present hM hparts h
  have hnames : [readConcernName,sessionIdName,writeConcernName,serverIdName].Nodup := by decide
  have hn : (keys t).Nodup := hperm.nodup_iff.mpr hnames
  refine ⟨(keys_present t).nodup hn,fun key hkey => ?_,find?_present hn hserver,
    find?_present hn hsession⟩
  have hm := hperm.subset ((keys_present t).subset hkey)
  simp only [List.mem_cons,List.not_mem_nil,or_false] at hm
  rcases hm with rfl | rfl | rfl | rfl
  · have hsome := ne_none_of_mem_keys_present hn hread hkey
    exact .inr (.inr (.inl ⟨rfl,by simpa using mt hnoread hsome⟩))
  · exact .inl rfl
  · have hsome := ne_none_of_mem_keys_present hn hwrite hkey
    exact .inr (.inr (.inr ⟨rfl,by simpa using mt hnowrite hsome⟩))
  · exact .inr (.inl rfl)

section SessionOfCommand
variable (hM : M.Lawful sessionId)

include hM in
theorem createImplicitSession_client {client : ℕ} {s : SessionObject}
    (h : M.createImplicitSession client = some s) : M.sessionGetClient s.clientSession = client := by
  obtain ⟨cs,hcs,rfl⟩ := Option.map_eq_some_iff.mp h
  exact hM.clientStartSession client cs hcs

theorem implicitSession_of_unacknowledged (h : parts.unacknowledged = true) :
    M.implicitSession call parts = none := by
  simp [implicitSession,h]

include hM in
/-- The session of a command is one of the executing client. -/
theorem session_client (h : call.options.parseSession M call.client = .ok parts.session) :
    ∀ s ∈ parts.session.or (M.implicitSession call parts),
      M.sessionGetClient s.clientSession = call.client := by
  intro s hs
  cases hexplicit : parts.session with
  | some s' =>
    rw [hexplicit] at h hs
    exact (OptionsArgument.parseSession_eq_ok h).2 s hs
  | none =>
    rw [hexplicit,Option.none_or] at hs
    unfold implicitSession at hs
    split at hs
    · exact createImplicitSession_client hM hs
    · cases hs

theorem session_of_acknowledged (h : parts.unacknowledged = false) :
    parts.session.or (M.implicitSession call parts) =
      parts.session.or (M.createImplicitSession call.client) := by
  cases hexplicit : parts.session with
  | some s => rfl
  | none => simp [implicitSession,hexplicit,h]

end SessionOfCommand

/-- How the outcome of a command came about. -/
structure Sent (M : MongocExecution Rc Rp Wc) (call : CommandCall Rc Rp Wc) (serverId : UInt32)
    (parts : CommandParts Rp) (sent : SentCommand Rp) (out : CommandOutcome Rp) : Prop where
  parsed : M.parseCommandOptions call = .ok parts
  client : sent.client = call.client
  command : sent.command = call.command.bson
  opts : M.finishOpts serverId parts (M.implicitSession call parts) = .ok sent.opts
  started : out.started = M.implicitSession call parts
  cursor : ∀ new, out.cursor = some new → ∃ reply, M.command sent = .ok reply ∧
    M.cursorOf call serverId (parts.session.or (M.implicitSession call parts)) reply = .ok new
  result : ∀ cursor, out.result = .ok cursor →
    cursor.session = parts.session.or (M.implicitSession call parts)

theorem executeCommand_sent {sent : SentCommand Rp}
    (h : (M.executeCommand call serverId).sent = some sent) :
    ∃ parts, Sent M call serverId parts sent (M.executeCommand call serverId) := by
  unfold executeCommand at h ⊢
  cases hparts : M.parseCommandOptions call with
  | error e => simp [hparts] at h
  | ok parts =>
    simp only [hparts] at h ⊢
    cases hopts : M.finishOpts serverId parts (M.implicitSession call parts) with
    | error e => simp [hopts] at h
    | ok opts =>
      simp only [hopts] at h ⊢
      refine ⟨parts,?_⟩
      unfold sendCommand at h ⊢
      split at h
      · rename_i hreply
        cases h
        exact ⟨hparts,rfl,rfl,hopts,rfl,fun _ hnew => (by cases hnew),fun _ hcursor => (by cases hcursor)⟩
      · rename_i reply hreply
        dsimp only at h ⊢
        split at h
        · cases h
          exact ⟨hparts,rfl,rfl,hopts,rfl,fun _ hnew => (by cases hnew),
            fun _ hcursor => (by cases hcursor)⟩
        · rename_i new hnew
          cases h
          refine ⟨hparts,rfl,rfl,hopts,rfl,fun new' hnew' => ?_,fun cursor hcursor => ?_⟩
          · cases hnew'
            exact ⟨reply,hreply,hnew⟩
          · cases hcursor
            rfl

end MongocExecution

def Command.cursorTable (command : Command) (serverId : UInt32) (session : Option BsonValue) :
    Table CString (Option BsonValue) :=
  let await : Option Unit := if command.maxAwaitTimeMs ≠ 0 then some () else none
  [(serverIdName,some (.int32 serverId.toInt32)),
    (CString.lit "awaitData",await.map fun _ => .bool true),
    (CString.lit "maxAwaitTimeMS",
      await.map fun _ => .int64 command.maxAwaitTimeMs.toUInt64.toInt64),
    (CString.lit "tailable",await.map fun _ => .bool true),
    (CString.lit "batchSize",
      if command.batchSize ≠ 0 then some (.int64 command.batchSize.toUInt64.toInt64) else none),
    (sessionIdName,session)]

theorem Command.cursorOpts_eq (command : Command) (serverId : UInt32) (session : Option BsonValue) :
    command.cursorOpts serverId ++ present [(sessionIdName,session)] =
      present (command.cursorTable serverId session) := by
  unfold cursorOpts cursorTable
  split <;> split <;> rfl

theorem Command.nodup_cursorTable (command : Command) (serverId : UInt32)
    (session : Option BsonValue) : (keys (command.cursorTable serverId session)).Nodup := by
  have hnames : [serverIdName,CString.lit "awaitData",CString.lit "maxAwaitTimeMS",
    CString.lit "tailable",CString.lit "batchSize",sessionIdName].Nodup := by decide
  exact hnames

def HoldsCursor (reply : Doc) : Prop :=
  ∃ d, iterFind (CString.lit "cursor") reply = some (.document d)

section
variable {Rc Rp Wc : Type}

/-- The cursor of a reply goes on at the same server and in the same session, with batches of the
size that the command asks for. -/
structure GoesOn (sessionId : Option ℕ → Int64) (call : CommandCall Rc Rp Wc) (serverId : UInt32)
    (session : Option SessionObject) (reply : Doc) (new : NewCursor) : Prop where
  client : new.client = call.client
  nodup : (keys new.opts).Nodup
  server : find? new.opts serverIdName = some (.int32 serverId.toInt32)
  session : HoldsCursor reply → find? new.opts sessionIdName =
    session.map fun s => .int64 (sessionId s.clientSession)
  batchSize : HoldsCursor reply → find? new.opts (CString.lit "batchSize") =
    if call.command.batchSize ≠ 0 then some (.int64 call.command.batchSize.toUInt64.toInt64)
    else none
  holds : HoldsCursor reply → new.reply = reply
  wrapped : ¬ HoldsCursor reply → new.reply = wrappedCommandEnvelope call.db reply

/-- What goes to the server for a command, in a session or in none. -/
structure Routed (M : MongocExecution Rc Rp Wc) (sessionId : Option ℕ → Int64)
    (call : CommandCall Rc Rp Wc) (serverId : UInt32) (sent : SentCommand Rp)
    (out : CommandOutcome Rp) (session : Option SessionObject) : Prop where
  executing : sent.client = call.client
  command : sent.command = call.command.bson
  batchSize : call.command.batchSize = commandBatchSize sent.command
  options : MongocExecution.SentOptions sessionId call.type serverId session sent.opts
  client : ∀ s ∈ session, M.sessionGetClient s.clientSession = call.client
  /-- no session goes with an unacknowledged write concern -/
  unacknowledged : M.Unacknowledged call → session = none ∧ out.started = none
  /-- otherwise the given session goes, or else the one that libmongoc starts, if it does -/
  acknowledged : ¬ M.Unacknowledged call →
    session = (call.options.given OptionArray.session OptionObject.session?).or
      (M.createImplicitSession call.client)
  cursor : ∀ new, out.cursor = some new → ∃ reply, M.command sent = .ok reply ∧
    GoesOn sessionId call serverId session reply new
  object : ∀ cursor, out.result = .ok cursor → cursor.session = session

variable {M : MongocExecution Rc Rp Wc} {sessionId : Option ℕ → Int64}
  {call : CommandCall Rc Rp Wc} {serverId : UInt32} {sent : SentCommand Rp}

theorem cursorOf_goesOn (hM : M.Lawful sessionId) {session : Option SessionObject} {reply : Doc}
    {new : NewCursor} (h : M.cursorOf call serverId session reply = .ok new) :
    GoesOn sessionId call serverId session reply new := by
  unfold MongocExecution.cursorOf at h
  split at h
  · rename_i d hfound
    have hholds : HoldsCursor reply := ⟨d,hfound⟩
    have hopts : new = ⟨call.client,reply,present (call.command.cursorTable serverId
        (session.map fun s => .int64 (sessionId s.clientSession)))⟩ := by
      rw [← Command.cursorOpts_eq]
      cases session with
      | none =>
        cases h
        simp [present_absent]
      | some s =>
        cases happend : M.sessionAppend s.clientSession (call.command.cursorOpts serverId) with
        | error e =>
          simp only [happend] at h
          cases h
        | ok opts =>
          simp only [happend] at h
          cases h
          rw [hM.sessionAppend _ _ _ happend]
          rfl
    have hn := call.command.nodup_cursorTable serverId
      (session.map fun s => .int64 (sessionId s.clientSession))
    rw [hopts]
    exact ⟨rfl,(keys_present _).nodup hn,find?_present hn (by simp [Command.cursorTable]),
      fun _ => find?_present hn (by simp [Command.cursorTable]),
      fun _ => find?_present hn (by simp [Command.cursorTable]),fun _ => rfl,
      fun hnot => absurd hholds hnot⟩
  · rename_i hfound
    have hnot : ¬ HoldsCursor reply := fun ⟨d,hd⟩ => hfound d hd
    cases h
    exact ⟨rfl,by simp,by simp [find?],fun hholds => absurd hholds hnot,
      fun hholds => absurd hholds hnot,fun hholds => absurd hholds hnot,fun _ => rfl⟩

theorem command_routed {E : QueryOutside Rc} {document options : Zval}
    (hcommand : E.constructCommand document options [] = (some call.command,[]))
    (hM : M.Lawful sessionId) (h : (M.executeCommand call serverId).sent = some sent) :
    ∃ session, Routed M sessionId call serverId sent (M.executeCommand call serverId) session := by
  obtain ⟨parts,hsent⟩ := MongocExecution.executeCommand_sent h
  obtain ⟨-,hparsed,hunack,hnone⟩ := MongocExecution.parseCommandOptions_eq_ok hM hsent.parsed
  obtain ⟨hgiven,-⟩ := OptionsArgument.parseSession_eq_ok hparsed
  obtain ⟨hbson,hbatch⟩ := QueryOutside.constructCommand_eq hcommand
  refine ⟨parts.session.or (M.implicitSession call parts),hsent.client,hsent.command,
    by rw [hsent.command,hbson,hbatch],MongocExecution.finishOpts_sent hM hsent.parsed hsent.opts,
    MongocExecution.session_client hM hparsed,?unacknowledged,?acknowledged,?cursor,hsent.result⟩
  case unacknowledged =>
    intro hu
    have hu := hunack.mpr hu
    have himplicit : M.implicitSession call parts = none :=
      MongocExecution.implicitSession_of_unacknowledged hu
    exact ⟨by rw [hnone hu,himplicit]; rfl,hsent.started.trans himplicit⟩
  case acknowledged =>
    intro hu
    rw [← hgiven]
    exact MongocExecution.session_of_acknowledged (by simpa using mt hunack.mp hu)
  case cursor =>
    intro new hnew
    obtain ⟨reply,hreply,hof⟩ := hsent.cursor new hnew
    exact ⟨reply,hreply,cursorOf_goesOn hM hof⟩

end

/-- A server that answers every command with a cursor; a session is the number of its client, and
a write concern whether it is acknowledged. -/
def MongocExecution.plain : MongocExecution Unit Unit Bool where
  sessionGetClient s := s.getD 0
  sessionGetServerId _ := 0
  sessionAppend s d := .ok (d ++ [(sessionIdName,.int64 (Int64.ofNat (s.getD 0)))])
  readConcernAppend _ d := some (d ++ [(readConcernName,.document [])])
  writeConcernAppend _ d := some (d ++ [(writeConcernName,.document [])])
  serverIdAppend id d := some (d ++ [(serverIdName,.int32 id.toInt32)])
  isAcknowledged wc := wc
  clientGetWriteConcern _ := true
  clientGetReadPrefs _ := ()
  selectServer _ _ _ := .ok 3
  clientStartSession client := some client
  objectInit := 0
  command _ := .ok [(CString.lit "cursor",.document [])]
  find _ := .ok 0
  exceptionOf _ _ := invalidArgument "" []

theorem MongocExecution.plain_lawful :
    MongocExecution.plain.Lawful fun s => Int64.ofNat (s.getD 0) where
  readConcernAppend _ d d' h := ⟨some (.document []),(Option.some.inj h).symm⟩
  writeConcernAppend _ d d' h := ⟨.document [],(Option.some.inj h).symm⟩
  sessionAppend _ d d' h := (Except.ok.inj h).symm
  serverIdAppend _ d d' h := (Option.some.inj h).symm
  clientStartSession client s h := by
    cases h
    rfl

/-- An aggregation with batches of 10. -/
def aggregation : CommandCall Unit Unit Bool :=
  ⟨.read,7,CString.lit "db",⟨[(CString.lit "aggregate",.utf8 (ascii "c")),
    (CString.lit "cursor",.document [(CString.lit "batchSize",.int32 10)])],10,0⟩,.missing⟩

/-- It is sent in an implicit session. -/
theorem command_routed_aggregation : ∃ sent session,
    find? sent.opts sessionIdName = some (.int64 7) ∧
    Routed MongocExecution.plain (fun s => Int64.ofNat (s.getD 0)) aggregation 3 sent
      (MongocExecution.plain.executeCommand aggregation 3) session := by
  have hcommand : QueryOutside.plain.constructCommand
      (.array none [(.str (ascii "aggregate"),.string (ascii "c")),
        (.str (ascii "cursor"),.array none [(.str (ascii "batchSize"),.long 10)])]) .null [] =
      (some aggregation.command,[]) := rfl
  obtain ⟨sent,hsent⟩ : ∃ sent,
    (MongocExecution.plain.executeCommand aggregation 3).sent = some sent := ⟨_,rfl⟩
  obtain ⟨session,hrouted⟩ := command_routed hcommand MongocExecution.plain_lawful hsent
  refine ⟨sent,session,?_,hrouted⟩
  cases hsent
  rfl

end Phongo
