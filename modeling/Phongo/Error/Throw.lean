import Mathlib.Tactic.Common
import Phongo.Bson.Decode

/-! Exceptions thrown for the errors of libmongoc, and the error labels of the server's reply. -/
namespace Phongo
open OrderedTable

/-- The domains of a `bson_error_t` that the driver looks at. -/
inductive MongocErrorDomain
  | client | command | server | serverSelection | stream | writeConcern | protocol
  | clientSideEncryption
  | other (domain : UInt32)
  deriving DecidableEq

/-- The codes of libmongoc that it looks at. -/
structure MongocErrorCodes where
  clientAuthenticate : UInt32
  clientInvalidEncryptionArg : UInt32
  commandInvalidArg : UInt32
  serverSelectionFailure : UInt32
  streamSocket : UInt32
  protocolBadWireVersion : UInt32

/-- `PHONGO_SERVER_ERROR_EXCEEDED_TIME_LIMIT` -/
def exceededTimeLimit : UInt32 := 50

/-- `bson_error_t` -/
structure BsonError where
  domain : MongocErrorDomain
  code : UInt32
  message : CString

inductive ExceptionClass
  | authentication | bulkWrite | command | connection | connectionTimeout | encryption
  | executionTimeout | invalidArgument | logic | runtime | server | unexpectedValue
  | userland (id : ℕ)
  deriving DecidableEq

def ExceptionClass.isRuntimeException : ExceptionClass → Bool
  | .invalidArgument | .logic | .unexpectedValue | .userland _ => false
  | _ => true

def exceptionProperty (prop : String) : Key := .str (ascii prop)

def ExceptionClass.properties (ce : ExceptionClass) : List (Key × Zval) :=
  (if ce.isRuntimeException then [(exceptionProperty "errorLabels",.null)] else []) ++
    match ce with
    | .command => [(exceptionProperty "resultDocument",.null)]
    | .bulkWrite => [(exceptionProperty "writeResult",.null)]
    | _ => []

/-- An exception object; its message is kept as a format and its arguments. -/
structure ExceptionObject where
  ce : ExceptionClass
  format : String
  args : List Arg
  code : UInt32
  properties : List (Key × Zval)

/-- `EG(exception)` with its chain of previous exceptions, newest first. -/
abbrev Chain := List ExceptionObject

/-- `zend_throw_exception` -/
def zendThrowException (ce : ExceptionClass) (format : String) (args : List Arg) (code : UInt32)
    (eg : Chain) : Chain :=
  ⟨ce,format,args,code,ce.properties⟩::eg

/-- `phongo_add_exception_prop` -/
def addExceptionProp (prop : String) (value : Zval) : Chain → Chain
  | [] => []
  | x::eg => { x with properties := update x.properties (exceptionProperty prop) value }::eg

/-- `phongo_exception_from_phongo_domain` -/
def exceptionFromPhongoDomain : ErrorDomain → ExceptionClass
  | .invalidArgument => .invalidArgument
  | .logic => .logic
  | .runtime => .runtime
  | .unexpectedValue => .unexpectedValue
  | .mongocFailed => .runtime
  | .connectionFailed => .connection

def ExceptionObject.ofException : Exception → ExceptionObject
  | .phongo domain format args =>
    let ce := exceptionFromPhongoDomain domain
    ⟨ce,format,args,0,ce.properties⟩
  | .userland id => ⟨.userland id,"",[],0,[]⟩

def ExceptionObject.toException (x : ExceptionObject) : Exception :=
  .phongo .mongocFailed x.format x.args

/-- Where `bson_iter_next` returns false. -/
def BsonValue.endsIteration : BsonValue → Bool
  | .unsupported _ | .corrupt => true
  | _ => false

/-- `bson_iter_find` -/
def iterFind (key : CString) : Doc → Option BsonValue
  | [] => none
  | (k,v)::d =>
    if v.endsIteration then none
    else if k = key then some v
    else iterFind key d

/-- The loop of `phongo_exception_append_error_labels` -/
def appendStrings (labels : Zval) (labelCount : ℕ) : Doc → Zval × ℕ
  | [] => (labels,labelCount)
  | (_,v)::d =>
    if v.endsIteration then (labels,labelCount)
    else
      match v with
      | .utf8 s => appendStrings (labels.addNextIndex (.string s)) (labelCount+1) d
      | _ => appendStrings labels labelCount d

/-- `phongo_exception_append_error_labels` -/
def appendErrorLabels (labels : Zval) : BsonValue → Zval × ℕ
  | .array errorLabels => appendStrings labels 0 errorLabels
  | _ => (labels,0)

/-- The labels appended where the iterator finds "errorLabels". -/
def appendFound (labels : Zval) (labelCount : ℕ) (d : Doc) : Zval × ℕ :=
  match iterFind (CString.lit "errorLabels") d with
  | some v =>
    let r := appendErrorLabels labels v
    (r.1,labelCount + r.2)
  | none => (labels,labelCount)

/-- The loop on "writeConcernErrors". -/
def appendOfWriteConcernErrors (labels : Zval) (labelCount : ℕ) : Doc → Zval × ℕ
  | [] => (labels,labelCount)
  | (_,v)::d =>
    if v.endsIteration then (labels,labelCount)
    else
      match v with
      | .document wce =>
        let r := appendFound labels labelCount wce
        appendOfWriteConcernErrors r.1 r.2 d
      | _ => appendOfWriteConcernErrors labels labelCount d

def appendOfWriteConcernError (labels : Zval) (labelCount : ℕ) : Option BsonValue → Zval × ℕ
  | some (.document child) => appendFound labels labelCount child
  | _ => (labels,labelCount)

def appendOfAllWriteConcernErrors (labels : Zval) (labelCount : ℕ) :
    Option BsonValue → Zval × ℕ
  | some (.array child) => appendOfWriteConcernErrors labels labelCount child
  | _ => (labels,labelCount)

/-- The three traversals of `phongo_exception_add_error_labels` -/
def gatherErrorLabels (reply : Doc) : Zval × ℕ :=
  let r := appendFound (.array none []) 0 reply
  let r := appendOfWriteConcernError r.1 r.2 (iterFind (CString.lit "writeConcernError") reply)
  appendOfAllWriteConcernErrors r.1 r.2 (iterFind (CString.lit "writeConcernErrors") reply)

/-- `phongo_exception_add_error_labels` -/
def addErrorLabels (reply : Option Doc) (eg : Chain) : Chain :=
  match reply with
  | none => eg
  | some reply =>
    let (labels,labelCount) := gatherErrorLabels reply
    if labelCount > 0 then addExceptionProp "errorLabels" labels eg else eg

/-- A string, and `strcmp` finds no difference. -/
def Zval.strcmpEqual (label : CString) : Zval → Bool
  | .string s => CString.ofBytes s = label
  | _ => false

/-- `php_phongo_has_string_array_element` -/
def hasStringArrayElement (labels : Zval) (label : CString) : Bool :=
  match labels with
  | .array _ els => els.any fun e => e.2.strcmpEqual label
  | _ => false

/-- `RuntimeException::hasErrorLabel` -/
def ExceptionObject.hasErrorLabel (x : ExceptionObject) (label : Bytes) : Bool :=
  hasStringArrayElement ((find? x.properties (exceptionProperty "errorLabels")).getD .null)
    (CString.ofBytes label)

structure ErrorOutside where
  codes : MongocErrorCodes
  libbson : Libbson
  userland : Userland
  /-- the class name of an exception of the application -/
  userlandClassName : ℕ → Bytes

section
variable (E : ErrorOutside)

def ErrorOutside.className : ExceptionClass → Bytes
  | .authentication => ascii "MongoDB\\Driver\\Exception\\AuthenticationException"
  | .bulkWrite => ascii "MongoDB\\Driver\\Exception\\BulkWriteException"
  | .command => ascii "MongoDB\\Driver\\Exception\\CommandException"
  | .connection => ascii "MongoDB\\Driver\\Exception\\ConnectionException"
  | .connectionTimeout => ascii "MongoDB\\Driver\\Exception\\ConnectionTimeoutException"
  | .encryption => ascii "MongoDB\\Driver\\Exception\\EncryptionException"
  | .executionTimeout => ascii "MongoDB\\Driver\\Exception\\ExecutionTimeoutException"
  | .invalidArgument => ascii "MongoDB\\Driver\\Exception\\InvalidArgumentException"
  | .logic => ascii "MongoDB\\Driver\\Exception\\LogicException"
  | .runtime => ascii "MongoDB\\Driver\\Exception\\RuntimeException"
  | .server => ascii "MongoDB\\Driver\\Exception\\ServerException"
  | .unexpectedValue => ascii "MongoDB\\Driver\\Exception\\UnexpectedValueException"
  | .userland id => E.userlandClassName id

/-- `phongo_exception_from_mongoc_domain` -/
def ErrorOutside.exceptionFromMongocDomain (domain : MongocErrorDomain) (code : UInt32) :
    ExceptionClass :=
  if domain = .client ∧ code = E.codes.clientAuthenticate then .authentication
  else if domain = .client ∧ code = E.codes.clientInvalidEncryptionArg then .invalidArgument
  else if domain = .command ∧ code = E.codes.commandInvalidArg then .invalidArgument
  else if domain = .server then
    if code = exceededTimeLimit then .executionTimeout else .server
  else if domain = .serverSelection ∧ code = E.codes.serverSelectionFailure then
    .connectionTimeout
  else if domain = .stream then
    if code = E.codes.streamSocket then .connectionTimeout else .connection
  else if domain = .writeConcern then .server
  else if domain = .protocol ∧ code = E.codes.protocolBadWireVersion then .connection
  else if domain = .clientSideEncryption then .encryption
  else .runtime

def BsonError.usesCommandException (error : BsonError) : Bool :=
  (error.domain = .server && error.code ≠ exceededTimeLimit) || error.domain = .writeConcern

/-- `php_phongo_bson_to_zval` on a reply, with what it throws before the pending exceptions. -/
def ErrorOutside.bsonToZval (reply : Doc) (eg : Chain) : Option Zval × Chain :=
  let r := bsonToZvalEx E.libbson E.userland (.read reply true) BsonState.init
    (eg.map ExceptionObject.toException)
  let thrown := r.exceptions.take (r.exceptions.length - eg.length)
  (if r.ok then some r.state.zchild else none,thrown.map ExceptionObject.ofException ++ eg)

/-- `phongo_throw_exception_from_bson_error_t_and_reply` -/
def ErrorOutside.throwFromBsonErrorAndReply (error : BsonError) (reply : Option Doc)
    (eg : Chain) : Chain :=
  let eg := match reply,error.usesCommandException with
    | some document,true =>
      let eg := zendThrowException .command "%s" [.bytes error.message.bytes] error.code eg
      match E.bsonToZval document eg with
      | (some zv,eg) => addExceptionProp "resultDocument" zv eg
      | (none,eg) => eg
    | _,_ =>
      zendThrowException (E.exceptionFromMongocDomain error.domain error.code) "%s"
        [.bytes error.message.bytes] error.code eg
  addErrorLabels reply eg

/-- What `phongo_execute_bulk_write` does for an execution that failed. -/
def ErrorOutside.throwBulkWriteException (error : BsonError) (reply : Doc) (writeResult : Zval)
    (eg : Chain) : Chain :=
  let eg :=
    if error.domain ≠ .server ∧ error.domain ≠ .writeConcern then
      E.throwFromBsonErrorAndReply error (some reply) eg
    else eg
  if error.domain = .command ∧ error.code = E.codes.commandInvalidArg then eg
  else
    let eg := match eg with
      | x::_ =>
        zendThrowException .bulkWrite "Bulk write failed due to previous %s: %s"
          [.bytes (E.className x.ce),.bytes error.message.bytes] 0 eg
      | [] =>
        zendThrowException .bulkWrite "%s" [.bytes error.message.bytes] error.code eg
    addExceptionProp "writeResult" writeResult (addErrorLabels (some reply) eg)

end

end Phongo
