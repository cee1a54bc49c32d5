import Mathlib.Tactic.Common
import Phongo.BulkWrite.Execution
import Phongo.Error.Throw
import Phongo.Lib.Optional
import Phongo.Lib.Throwing

/-! The options of the execute methods for commands and queries, and libmongoc's functions that
append them to what is sent. -/
namespace Phongo
open OrderedTable Throwing

/-- A value among the options, `Rc`, `Rp` and `Wc` being what the objects of the driver hold. -/
inductive OptionObject (Rc Rp Wc : Type)
  | readConcern (rc : Rc)
  | readPreference (rp : Rp)
  | session (s : SessionObject)
  | writeConcern (wc : Wc)
  | other (classOrTypeName : Bytes)

def readConcernClassName : Bytes := ascii "MongoDB\\Driver\\ReadConcern"

def readPreferenceClassName : Bytes := ascii "MongoDB\\Driver\\ReadPreference"

structure OptionArray (Rc Rp Wc : Type) where
  readConcern : Option (OptionObject Rc Rp Wc)
  readPreference : Option (OptionObject Rc Rp Wc)
  session : Option (OptionObject Rc Rp Wc)
  writeConcern : Option (OptionObject Rc Rp Wc)

/-- The `options` argument: none, an array, or any other value. -/
inductive OptionsArgument (Rc Rp Wc : Type)
  | missing
  | array (els : OptionArray Rc Rp Wc)
  | value (v : OptionObject Rc Rp Wc)

/-- What libmongoc is to send, with the function it is asked to. -/
inductive CommandType
  | raw | read | write | readWrite
  deriving DecidableEq

/-- `php_phongo_command_type_t` -/
def CommandType.code : CommandType → UInt8
  | .raw => 0x07
  | .read => 0x03
  | .write => 0x04
  | .readWrite => 0x05

def optionReadConcern : UInt8 := 0x01

def optionReadPreference : UInt8 := 0x02

def optionWriteConcern : UInt8 := 0x04

def CommandType.has (type : CommandType) (option : UInt8) : Bool := type.code &&& option ≠ 0

structure SentCommand (Rp : Type) where
  type : CommandType
  client : ℕ
  db : CString
  command : Doc
  readPrefs : Option Rp
  opts : Doc

structure SentQuery (Rc Rp : Type) where
  client : ℕ
  database : CString
  collection : CString
  readConcern : Option Rc
  filter : Doc
  opts : Doc
  readPrefs : Option Rp
  /-- `mongoc_cursor_set_max_await_time_ms`, unless it is 0 -/
  maxAwaitTimeMs : UInt32

/-- The functions of libmongoc that the execute methods call. Those that append to a document
yield nothing where they fail. -/
structure MongocExecution (Rc Rp Wc : Type) where
  sessionGetClient : Option ℕ → ℕ
  sessionGetServerId : Option ℕ → UInt32
  sessionAppend : Option ℕ → Doc → Except BsonError Doc
  readConcernAppend : Rc → Doc → Option Doc
  writeConcernAppend : Wc → Doc → Option Doc
  /-- `BSON_APPEND_INT32` of "serverId" -/
  serverIdAppend : UInt32 → Doc → Option Doc
  isAcknowledged : Wc → Bool
  clientGetWriteConcern : ℕ → Wc
  clientGetReadPrefs : ℕ → Rp
  /-- `mongoc_client_select_server`, with the exception thrown where it fails -/
  selectServer : ℕ → Bool → Option Rp → Throws UInt32
  /-- `mongoc_client_start_session` without options, which may have no session to give -/
  clientStartSession : ℕ → Option ℕ
  /-- the handle that `object_init_ex` gives a new object -/
  objectInit : ℕ
  /-- the four `mongoc_client_*command_with_opts` -/
  command : SentCommand Rp → Except (BsonError × Doc) Doc
  /-- `mongoc_collection_find_with_opts` and what `phongo_cursor_advance_and_check_for_error`
  throws -/
  find : SentQuery Rc Rp → Throws ℕ
  /-- what `phongo_throw_exception_from_bson_error_t_and_reply` throws -/
  exceptionOf : BsonError → Option Doc → Exception

def sessionIdName : CString := CString.lit "sessionId"

def serverIdName : CString := CString.lit "serverId"

def readConcernName : CString := CString.lit "readConcern"

def writeConcernName : CString := CString.lit "writeConcern"

/-- libmongoc's functions as documented: each appends the one field it is for, or, for a read
concern without a level, none; the session they append is named by its number. -/
structure MongocExecution.Lawful {Rc Rp Wc : Type} (M : MongocExecution Rc Rp Wc)
    (sessionId : Option ℕ → Int64) : Prop where
  readConcernAppend : ∀ rc d d', M.readConcernAppend rc d = some d' →
    ∃ v : Option BsonValue, d' = d ++ (v.map fun b => (readConcernName,b)).toList
  writeConcernAppend : ∀ wc d d', M.writeConcernAppend wc d = some d' →
    ∃ b, d' = d ++ [(writeConcernName,b)]
  sessionAppend : ∀ s d d', M.sessionAppend s d = .ok d' →
    d' = d ++ [(sessionIdName,.int64 (sessionId s))]
  serverIdAppend : ∀ id d d', M.serverIdAppend id d = some d' →
    d' = d ++ [(serverIdName,.int32 id.toInt32)]
  clientStartSession : ∀ client s, M.clientStartSession client = some s →
    M.sessionGetClient (some s) = client

namespace OptionObject
variable {Rc Rp Wc : Type}

def classOrTypeName : OptionObject Rc Rp Wc → Bytes
  | .readConcern _ => readConcernClassName
  | .readPreference _ => readPreferenceClassName
  | .session _ => sessionClassName
  | .writeConcern _ => writeConcernClassName
  | .other name => name

def readConcern? : OptionObject Rc Rp Wc → Option Rc
  | .readConcern rc => some rc
  | _ => none

def readPreference? : OptionObject Rc Rp Wc → Option Rp
  | .readPreference rp => some rp
  | _ => none

def session? : OptionObject Rc Rp Wc → Option SessionObject
  | .session s => some s
  | _ => none

def writeConcern? : OptionObject Rc Rp Wc → Option Wc
  | .writeConcern wc => some wc
  | _ => none

end OptionObject

namespace OptionsArgument
variable {Rc Rp Wc α : Type}

/-- `php_phongo_prep_legacy_option` for "readPreference" -/
def prepLegacyOption : OptionsArgument Rc Rp Wc → OptionsArgument Rc Rp Wc
  | .value v => .array ⟨none,some v,none,none⟩
  | options => options

/-- What the functions `phongo_parse_*` begin with: an option that is given is an object of its
class. -/
def parse (option : String) (fetch : OptionArray Rc Rp Wc → Option (OptionObject Rc Rp Wc))
    (className : Bytes) (ofObject : OptionObject Rc Rp Wc → Option α) :
    OptionsArgument Rc Rp Wc → Throws (Option α)
  | .missing => .ok none
  | .value v =>
    .error (invalidArgument "Expected options to be array, %s given" [.bytes v.classOrTypeName])
  | .array els =>
    match fetch els with
    | none => .ok none
    | some v =>
      match ofObject v with
      | some a => .ok (some a)
      | none => .error (invalidArgument "Expected \"%s\" option to be %s, %s given"
          [.bytes (ascii option),.bytes className,.bytes v.classOrTypeName])

def given (fetch : OptionArray Rc Rp Wc → Option (OptionObject Rc Rp Wc))
    (ofObject : OptionObject Rc Rp Wc → Option α) : OptionsArgument Rc Rp Wc → Option α
  | .array els => (fetch els).bind ofObject
  | .missing | .value _ => none

theorem parse_eq_ok {option : String}
    {fetch : OptionArray Rc Rp Wc → Option (OptionObject Rc Rp Wc)} {className : Bytes}
    {ofObject : OptionObject Rc Rp Wc → Option α} {options : OptionsArgument Rc Rp Wc}
    {a : Option α} (h : options.parse option fetch className ofObject = .ok a) :
    a = options.given fetch ofObject := by
  cases options with
  | missing => cases h; rfl
  | value v => cases h
  | array els =>
    simp only [parse] at h
    cases hfetch : fetch els with
    | none =>
      simp only [hfetch] at h
      cases h
      simp [given,hfetch]
    | some v =>
      simp only [hfetch] at h
      cases hobject : ofObject v with
      | none =>
        simp only [hobject] at h
        cases h
      | some a' =>
        simp only [hobject] at h
        cases h
        simp [given,hfetch,hobject]

/-- `phongo_parse_read_preference` -/
def parseReadPreference : OptionsArgument Rc Rp Wc → Throws (Option Rp) :=
  parse "readPreference" OptionArray.readPreference readPreferenceClassName
    OptionObject.readPreference?

variable (M : MongocExecution Rc Rp Wc)

/-- `phongo_parse_read_concern`, which appends the option. -/
def parseReadConcern (options : OptionsArgument Rc Rp Wc) (opts : Doc) : Throws Doc := do
  match ← options.parse "readConcern" OptionArray.readConcern readConcernClassName
      OptionObject.readConcern? with
  | none => return opts
  | some rc =>
    match M.readConcernAppend rc opts with
    | some opts => return opts
    | none => .error (invalidArgument "Error appending \"readConcern\" option" [])

/-- `phongo_parse_session` without a document to append to. -/
def parseSession (options : OptionsArgument Rc Rp Wc) (client : ℕ) :
    Throws (Option SessionObject) := do
  match ← options.parse "session" OptionArray.session sessionClassName OptionObject.session? with
  | none => return none
  | some s =>
    if client ≠ M.sessionGetClient s.clientSession then
      .error (invalidArgument "Cannot use Session started from a different Manager" [])
    else return some s

/-- `phongo_parse_session`, where it appends the option. -/
def parseSessionInto (options : OptionsArgument Rc Rp Wc) (client : ℕ) (opts : Doc) :
    Throws (Option SessionObject × Doc) := do
  match ← options.parseSession M client with
  | none => return (none,opts)
  | some s =>
    match M.sessionAppend s.clientSession opts with
    | .ok opts => return (some s,opts)
    | .error _ => .error (invalidArgument "Error appending \"session\" option" [])

/-- `phongo_parse_write_concern`, which appends the option. -/
def parseWriteConcern (options : OptionsArgument Rc Rp Wc) (opts : Doc) :
    Throws (Option Wc × Doc) := do
  match ← options.parse "writeConcern" OptionArray.writeConcern writeConcernClassName
      OptionObject.writeConcern? with
  | none => return (none,opts)
  | some wc =>
    match M.writeConcernAppend wc opts with
    | some opts => return (some wc,opts)
    | none => .error (invalidArgument "Error appending \"writeConcern\" option" [])

variable {M} {sessionId : Option ℕ → Int64} {options : OptionsArgument Rc Rp Wc} {opts opts' : Doc}
  {client : ℕ} {session : Option SessionObject} {writeConcern : Option Wc}

theorem parseReadConcern_eq_ok (hM : M.Lawful sessionId)
    (h : options.parseReadConcern M opts = .ok opts') :
    ∃ v, opts' = opts ++ present [(readConcernName,v)] := by
  obtain ⟨given,-,h⟩ := bind_eq_ok.mp h
  cases given with
  | none =>
    cases h
    exact ⟨none,by simp [present_absent]⟩
  | some rc =>
    cases happend : M.readConcernAppend rc opts with
    | none =>
      simp only [happend] at h
      cases h
    | some d =>
      simp only [happend] at h
      cases h
      obtain ⟨v,hv⟩ := hM.readConcernAppend rc opts _ happend
      refine ⟨v,hv.trans ?_⟩
      cases v <;> rfl

theorem parseSession_eq_ok (h : options.parseSession M client = .ok session) :
    session = options.given OptionArray.session OptionObject.session? ∧
      ∀ s ∈ session, M.sessionGetClient s.clientSession = client := by
  obtain ⟨given,hgiven,h⟩ := bind_eq_ok.mp h
  cases given with
  | none =>
    cases h
    exact ⟨parse_eq_ok hgiven,fun s hs => by cases hs⟩
  | some s =>
    dsimp only at h
    split at h
    · cases h
    · rename_i hclient
      cases h
      refine ⟨parse_eq_ok hgiven,fun s' hs' => ?_⟩
      obtain rfl := Option.mem_some.mp hs'
      exact (not_not.mp hclient).symm

theorem parseSessionInto_eq_ok (hM : M.Lawful sessionId)
    (h : options.parseSessionInto M client opts = .ok (session,opts')) :
    options.parseSession M client = .ok session ∧
      opts' = opts ++ present
        [(sessionIdName,session.map fun s => .int64 (sessionId s.clientSession))] := by
  obtain ⟨given,hgiven,h⟩ := bind_eq_ok.mp h
  cases given with
  | none =>
    cases h
    exact ⟨hgiven,by simp [present_absent]⟩
  | some s =>
    cases happend : M.sessionAppend s.clientSession opts with
    | error e =>
      simp only [happend] at h
      cases h
    | ok d =>
      simp only [happend] at h
      cases h
      exact ⟨hgiven,hM.sessionAppend _ _ _ happend⟩

theorem parseWriteConcern_eq_ok (hM : M.Lawful sessionId)
    (h : options.parseWriteConcern M opts = .ok (writeConcern,opts')) :
    writeConcern = options.given OptionArray.writeConcern OptionObject.writeConcern? ∧
      ∃ v, opts' = opts ++ present [(writeConcernName,v)] := by
  obtain ⟨given,hgiven,h⟩ := bind_eq_ok.mp h
  cases given with
  | none =>
    cases h
    exact ⟨parse_eq_ok hgiven,none,by simp [present_absent]⟩
  | some wc =>
    cases happend : M.writeConcernAppend wc opts with
    | none =>
      simp only [happend] at h
      cases h
    | some d =>
      simp only [happend] at h
      cases h
      obtain ⟨b,hb⟩ := hM.writeConcernAppend wc opts _ happend
      exact ⟨parse_eq_ok hgiven,some b,hb⟩

end OptionsArgument

end Phongo
