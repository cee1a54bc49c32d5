import Mathlib.Tactic.Common
import Phongo.Manager.Options
import Phongo.Concern.ReadPreference

/-! `MongoDB\Driver\Query`: the constructor. -/
namespace Phongo

/-- `php_phongo_query_t` -/
structure Query (Rc : Type) where
  filter : Doc
  opts : Doc
  readConcern : Option Rc
  maxAwaitTimeMs : UInt32

/-- The answers of PHP, of the application's code and of libbson during one construction. -/
structure QueryOutside (Rc : Type) where
  libbson : Libbson
  userland : Userland
  /-- `bson_validate` with BSON_VALIDATE_EMPTY_KEYS -/
  bsonValidate : Doc → Bool
  /-- the exception of `zend_parse_parameters` -/
  parameterError : Exception
  /-- what an error handler throws when told of an E_DEPRECATED notice -/
  deprecated : String → List ℕ
  /-- `convert_to_long`, and what the conversion throws -/
  convertToLong : Zval → Int64 × List ℕ
  /-- the concern in a `MongoDB\Driver\ReadConcern` object -/
  readConcern : Zval → Option Rc

/-- The macros that append an option: `PHONGO_QUERY_OPT_BOOL_EX`, `PHONGO_QUERY_OPT_INT64_EX`,
`PHONGO_QUERY_OPT_STRING` and `PHONGO_QUERY_OPT_DOCUMENT`. -/
inductive QueryOptMacro
  | bool (deprecated : Bool)
  | int64 (deprecated : Bool)
  | string
  | document

inductive QueryArray
  | options | modifiers
  deriving DecidableEq

structure QueryOpt where
  expand : QueryOptMacro
  opt : String
  zarr : QueryArray
  key : String

/-- The statements of `php_phongo_query_init`, each with the uses it chains by `else`. -/
def queryStatements : List (List QueryOpt) :=
  [[⟨.bool false,"allowDiskUse",.options,"allowDiskUse"⟩],
    [⟨.bool false,"allowPartialResults",.options,"allowPartialResults"⟩,
      ⟨.bool false,"allowPartialResults",.options,"partial"⟩],
    [⟨.bool false,"awaitData",.options,"awaitData"⟩],
    [⟨.int64 false,"batchSize",.options,"batchSize"⟩],
    [⟨.document,"collation",.options,"collation"⟩],
    [⟨.string,"comment",.options,"comment"⟩,⟨.string,"comment",.modifiers,"$comment"⟩],
    [⟨.bool false,"exhaust",.options,"exhaust"⟩],
    [⟨.document,"max",.options,"max"⟩,⟨.document,"max",.modifiers,"$max"⟩],
    [⟨.int64 true,"maxScan",.options,"maxScan"⟩,
      ⟨.int64 true,"maxScan",.modifiers,"$maxScan"⟩],
    [⟨.int64 false,"maxTimeMS",.options,"maxTimeMS"⟩,
      ⟨.int64 false,"maxTimeMS",.modifiers,"$maxTimeMS"⟩],
    [⟨.document,"min",.options,"min"⟩,⟨.document,"min",.modifiers,"$min"⟩],
    [⟨.bool false,"noCursorTimeout",.options,"noCursorTimeout"⟩],
    [⟨.bool true,"oplogReplay",.options,"oplogReplay"⟩],
    [⟨.document,"projection",.options,"projection"⟩],
    [⟨.bool false,"returnKey",.options,"returnKey"⟩,
      ⟨.bool false,"returnKey",.modifiers,"$returnKey"⟩],
    [⟨.bool false,"showRecordId",.options,"showRecordId"⟩,
      ⟨.bool false,"showRecordId",.modifiers,"$showDiskLoc"⟩],
    [⟨.int64 false,"skip",.options,"skip"⟩],
    [⟨.document,"sort",.options,"sort"⟩,⟨.document,"sort",.modifiers,"$orderby"⟩],
    [⟨.bool true,"snapshot",.options,"snapshot"⟩,
      ⟨.bool true,"snapshot",.modifiers,"$snapshot"⟩],
    [⟨.bool false,"tailable",.options,"tailable"⟩],
    [⟨.bool false,"explain",.modifiers,"$explain"⟩]]

/-- What the messages call a key of the options or of the modifiers. -/
def optionOrModifier (key : String) : Bytes :=
  if (ascii key).head? = some 36 then ascii "modifier" else ascii "option"

section
variable {Rc : Type} (E : QueryOutside Rc)

/-- `php_phongo_zval_to_bson` and the test of `EG(exception)` after it. -/
def QueryOutside.toBson (z : Zval) : Attempt Exception Doc := do
  let b ← fun eg =>
    let r := zvalToBson E.libbson E.userland z .none eg
    (some r.1,r.2.2)
  Attempt.check
  return b

/-- `php_array_zval_to_long` -/
def QueryOutside.zvalToLong : Zval → Attempt Exception Int64
  | .reference z => QueryOutside.zvalToLong z
  | .null => pure 0
  | .bool b => pure (if b then 1 else 0)
  | .long n => pure n
  | z => userCode (E.convertToLong z)

/-- `php_array_fetchc_long` -/
def QueryOutside.fetchLong (options : Options) (key : String) : Attempt Exception Int64 :=
  match options.fetch key with
  | none => pure 0
  | some z => E.zvalToLong z

/-- `php_phongo_query_opts_append_string` -/
def queryOptsAppendString (opts : Doc) (optsKey zarrKey : String) (value : Zval) :
    Attempt Exception Doc :=
  match value with
  | .string s => pure (opts ++ [(CString.lit optsKey,.utf8 s)])
  | value => Attempt.throw (invalidArgument "Expected \"%s\" %s to be string, %s given"
      [.bytes (ascii zarrKey),.bytes (optionOrModifier zarrKey),.bytes value.classOrTypeName])

/-- `php_phongo_query_opts_append_document` -/
def QueryOutside.optsAppendDocument (opts : Doc) (optsKey zarrKey : String) (value : Zval) :
    Attempt Exception Doc :=
  if value.isArrayOrObject then do
    let b ← E.toBson value
    if E.bsonValidate b then return opts ++ [(CString.lit optsKey,.document b)]
    else Attempt.throw (invalidArgument "Cannot use empty keys in \"%s\" %s"
      [.bytes (ascii zarrKey),.bytes (optionOrModifier zarrKey)])
  else Attempt.throw (invalidArgument "Expected \"%s\" %s to be array or object, %s given"
    [.bytes (ascii zarrKey),.bytes (optionOrModifier zarrKey),.bytes value.classOrTypeName])

/-- `php_error_docref` with E_DEPRECATED, if the option is. -/
def QueryOutside.notice (deprecated : Bool) (key : String) : Attempt Exception Unit :=
  if deprecated then
    userCode ((),E.deprecated
      ("The \"" ++ key ++ "\" option is deprecated and will be removed in a future release"))
  else pure ()

def QueryOutside.append (o : QueryOpt) (value : Zval) (opts : Doc) : Attempt Exception Doc :=
  match o.expand with
  | .bool deprecated => do
    E.notice deprecated o.key
    return opts ++ [(CString.lit o.opt,.bool value.isTrue)]
  | .int64 deprecated => do
    E.notice deprecated o.key
    let n ← E.zvalToLong value
    return opts ++ [(CString.lit o.opt,.int64 n)]
  | .string => queryOptsAppendString opts o.opt o.key value
  | .document => E.optsAppendDocument opts o.opt o.key value

/-- `modifiers` is NULL unless the options have them. -/
def QueryArray.of (options : Options) (modifiers : Option Options) : QueryArray → Option Options
  | .options => some options
  | .modifiers => modifiers

/-- A statement: the first use whose key exists. -/
def QueryOutside.statement (options : Options) (modifiers : Option Options) :
    List QueryOpt → Doc → Attempt Exception Doc
  | [], opts => pure opts
  | o::os, opts =>
    match (o.zarr.of options modifiers).bind (·.fetch o.key) with
    | some value => E.append o value opts
    | none => QueryOutside.statement options modifiers os opts

def QueryOutside.statements (options : Options) (modifiers : Option Options) :
    List (List QueryOpt) → Doc → Attempt Exception Doc
  | [], opts => pure opts
  | s::ss, opts => do
    let opts ← E.statement options modifiers s opts
    QueryOutside.statements options modifiers ss opts

/-- `php_phongo_query_init_hint`, where the key exists. -/
def QueryOutside.appendHint (zarr : QueryArray) (key wrongType : String) (value : Zval)
    (opts : Doc) : Attempt Exception Doc :=
  match value with
  | .string _ => E.append ⟨.string,"hint",zarr,key⟩ value opts
  | value =>
    if value.isArrayOrObject then E.append ⟨.document,"hint",zarr,key⟩ value opts
    else Attempt.throw (invalidArgument wrongType [.bytes value.classOrTypeName])

/-- `php_phongo_query_init_hint` -/
def QueryOutside.initHint (options : Options) (modifiers : Option Options) (opts : Doc) :
    Attempt Exception Doc :=
  match options.fetch "hint",modifiers.bind (·.fetch "$hint") with
  | some value,_ => E.appendHint .options "hint"
      "Expected \"hint\" option to be string, array, or object, %s given" value opts
  | none,some value => E.appendHint .modifiers "$hint"
      "Expected \"$hint\" modifier to be string, array, or object, %s given" value opts
  | none,none => pure opts

/-- `php_phongo_query_init_limit_and_singlebatch` -/
def QueryOutside.initLimitAndSinglebatch (options : Options) (opts : Doc) :
    Attempt Exception Doc := do
  if (← E.fetchLong options "limit") < 0 then
    let limit ← E.fetchLong options "limit"
    let opts := opts ++ [(CString.lit "limit",.int64 (-limit))]
    if (options.fetch "singleBatch").any (!·.isTrue) then
      Attempt.throw (invalidArgument
        "Negative \"limit\" option conflicts with false \"singleBatch\" option" [])
    else return opts ++ [(CString.lit "singleBatch",.bool true)]
  else
    E.statements options none
      [[⟨.int64 false,"limit",.options,"limit"⟩],
        [⟨.bool false,"singleBatch",.options,"singleBatch"⟩]] opts

/-- `php_phongo_query_init_readconcern` -/
def QueryOutside.initReadConcern (options : Options) : Attempt Exception (Option Rc) :=
  match options.fetch "readConcern" with
  | none => pure none
  | some z =>
    match E.readConcern z with
    | some rc => pure (some rc)
    | none => Attempt.throw (invalidArgument "Expected \"readConcern\" option to be %s, %s given"
        [.bytes (ascii "MongoDB\\Driver\\ReadConcern"),.bytes z.classOrTypeName])

def uint32Max : Int64 := 4294967295

/-- `php_phongo_query_init_max_await_time_ms` -/
def QueryOutside.initMaxAwaitTimeMs (options : Options) : Attempt Exception UInt32 :=
  match options.fetch "maxAwaitTimeMS" with
  | none => pure 0
  | some z => do
    let n ← E.zvalToLong z
    if n < 0 then
      Attempt.throw (invalidArgument "Expected \"maxAwaitTimeMS\" option to be >= 0, %ld given"
        [.num n.toInt])
    else if n > uint32Max then
      Attempt.throw (invalidArgument "Expected \"maxAwaitTimeMS\" option to be <= %u, %ld given"
        [.num uint32Max.toInt,.num n.toInt])
    else return n.toUInt64.toUInt32

/-- The "modifiers" option. -/
def fetchModifiers (options : Options) : Attempt Exception (Option Options) :=
  match options.fetch "modifiers" with
  | none => pure none
  | some (.array _ els) => pure (some els)
  | some z => Attempt.throw (invalidArgument
      "Expected \"modifiers\" option to be array, %s given" [.bytes z.classOrTypeName])

/-- `php_phongo_query_init` -/
def QueryOutside.init (filter : Zval) (options : Option Options) :
    Attempt Exception (Query Rc) := do
  let filter ← E.toBson filter
  if E.bsonValidate filter then
    match options with
    | none => return ⟨filter,[],none,0⟩
    | some options => do
      let modifiers ← fetchModifiers options
      let opts ← E.statements options modifiers queryStatements []
      let opts ← E.initHint options modifiers opts
      let opts ← E.initLimitAndSinglebatch options opts
      let readConcern ← E.initReadConcern options
      let maxAwaitTimeMs ← E.initMaxAwaitTimeMs options
      return ⟨filter,opts,readConcern,maxAwaitTimeMs⟩
  else Attempt.throw (invalidArgument "Cannot use empty keys in filter document" [])

/-- `Query::__construct`, whose caller gets the object if no exception is pending. -/
def QueryOutside.construct (filter options : Zval) : Attempt Exception (Query Rc) :=
  if filter.isArrayOrObject then
    match options with
    | .null => E.init filter none
    | .array _ els => E.init filter (some els)
    | _ => Attempt.throw E.parameterError
  else Attempt.throw E.parameterError

end

end Phongo
