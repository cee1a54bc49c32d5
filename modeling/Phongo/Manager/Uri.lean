import Mathlib.Tactic.Common
import Phongo.Bson.Document
import Phongo.Exception

/-! URI options: how `options` change a `mongoc_uri_t`.
The functions that do so return false exactly where they throw, one exception each; here they
end with that exception. -/
namespace Phongo

inductive ReadMode
  | primary | primaryPreferred | secondary | secondaryPreferred | nearest
  deriving DecidableEq

/-- `mongoc_read_prefs_t` -/
structure ReadPrefs where
  mode : ReadMode
  tags : Doc
  maxStalenessSeconds : Int64

/-- `mongoc_write_concern_t` -/
structure WriteConcern where
  w : Int32
  wtag : Option CString
  journal : Option Bool
  wtimeout : Int64

/-- `mongoc_read_concern_t` -/
structure ReadConcern where
  level : Option CString

/-- libmongoc's URI functions. A setter yields nothing where it returns false. -/
structure MongocUri (Uri : Type) where
  /-- `mongoc_uri_new_with_error` or its error message -/
  newWithError : CString → Except Bytes Uri
  optionIsBool : CString → Bool
  optionIsInt32 : CString → Bool
  optionIsUtf8 : CString → Bool
  setOptionAsBool : Uri → CString → Bool → Option Uri
  setOptionAsInt32 : Uri → CString → Int32 → Option Uri
  setOptionAsUtf8 : Uri → CString → CString → Option Uri
  setUsername : Uri → CString → Option Uri
  setPassword : Uri → CString → Option Uri
  setAuthMechanism : Uri → CString → Option Uri
  setAuthSource : Uri → CString → Option Uri
  setCompressors : Uri → CString → Option Uri
  setMechanismProperties : Uri → Doc → Option Uri
  getMechanismProperties : Uri → Option Doc
  getUsername : Uri → Option CString
  getPassword : Uri → Option CString
  getAuthMechanism : Uri → Option CString
  /-- "authsource" among `mongoc_uri_get_credentials` -/
  credentialsAuthSource : Uri → Option CString
  getOptionAsBool : Uri → CString → Bool → Bool
  getOptionAsUtf8 : Uri → CString → Option CString
  /-- `bson_iter_init_find_case` in `mongoc_uri_get_options` -/
  hasOption : Uri → CString → Bool
  getTls : Uri → Bool
  getString : Uri → CString
  /-- the length of `mongoc_uri_get_hosts` -/
  hosts : Uri → ℕ
  getReadConcern : Uri → Option ReadConcern
  setReadConcern : Uri → ReadConcern → Uri
  getReadPrefs : Uri → Option ReadPrefs
  setReadPrefs : Uri → ReadPrefs → Uri
  readPrefsIsValid : ReadPrefs → Bool
  getWriteConcern : Uri → Option WriteConcern
  setWriteConcern : Uri → WriteConcern → Uri
  writeConcernIsValid : WriteConcern → Bool
  /-- `bson_iter_as_bool` -/
  iterAsBool : BsonValue → Bool
  /-- `bson_init_static` -/
  initStatic : Doc → Bool

abbrev Throws := Except Exception

def orThrow {α : Type} (e : Exception) : Option α → Throws α
  | some a => .ok a
  | none => .error e

/-- `php_phongo_bson_type_to_string` -/
def BsonValue.typeToString : BsonValue → String
  | .double _ => "double"
  | .utf8 _ => "string"
  | .document _ => "document"
  | .array _ => "array"
  | .binary _ _ => "Binary"
  | .undefined => "undefined"
  | .oid _ => "ObjectId"
  | .bool _ => "boolean"
  | .dateTime _ => "UTCDateTime"
  | .null => "null"
  | .regex _ _ => "Regex"
  | .dbPointer _ _ => "DBPointer"
  | .code _ => "Javascript"
  | .symbol _ => "symbol"
  | .codeWithScope _ _ => "Javascript with scope"
  | .int32 _ => "32-bit integer"
  | .timestamp _ _ => "Timestamp"
  | .int64 _ => "64-bit integer"
  | .decimal128 _ _ => "Decimal128"
  | .maxKey => "MaxKey"
  | .minKey => "MinKey"
  | .unsupported _ | .corrupt => "unknown"

/-- `PHONGO_URI_INVALID_TYPE` -/
def uriInvalidType (expected : String) (key : CString) (v : BsonValue) : Exception :=
  invalidArgument "Expected %s for \"%s\" URI option, %s given"
    [.bytes (ascii expected),.bytes key.bytes,.bytes (ascii v.typeToString)]

def failedToParse (key : CString) : Exception :=
  invalidArgument "Failed to parse \"%s\" URI option" [.bytes key.bytes]

/-- `bson_iter_utf8` under the check `BSON_ITER_HOLDS_UTF8`. -/
def utf8Option (key : CString) : BsonValue → Throws CString
  | .utf8 s => .ok (CString.ofBytes s)
  | v => .error (uriInvalidType "string" key v)

/-- `bson_iter_as_int64` under the check `BSON_ITER_HOLDS_INT`. -/
def intOption (key : CString) : BsonValue → Throws Int64
  | .int32 n => .ok n.toInt64
  | .int64 n => .ok n
  | v => .error (uriInvalidType "integer" key v)

/-- `bson_iter_bool` under the check `BSON_ITER_HOLDS_BOOL`. -/
def boolOption (key : CString) : BsonValue → Throws Bool
  | .bool b => .ok b
  | v => .error (uriInvalidType "boolean" key v)

section
variable {Uri : Type} (M : MongocUri Uri)

/-- `php_phongo_make_uri` -/
def makeUri (uriString : CString) : Throws Uri :=
  match M.newWithError uriString with
  | .ok uri => .ok uri
  | .error message =>
    .error (invalidArgument "Failed to parse MongoDB URI: '%s'. %s."
      [.bytes uriString.bytes,.bytes message])

/-- `php_phongo_uri_finalize_auth` -/
def uriFinalizeAuth (uri : Uri) : Throws Uri :=
  let source := M.credentialsAuthSource uri
  let username := M.getUsername uri
  match M.getAuthMechanism uri with
  | some mechanism => do
    let uri ←
      if mechanism.eqCase "GSSAPI" ∨ mechanism.eqCase "MONGODB-X509" then
        match source with
        | some source =>
          if source.eqCase "$external" then .ok uri
          else .error (invalidArgument
            "Failed to parse URI options: GSSAPI and X509 require \"$external\" authSource." [])
        | none => .ok ((M.setAuthSource uri (CString.lit "$external")).getD uri)
      else .ok uri
    if ¬ mechanism.eqCase "MONGODB-X509" ∧ ¬ mechanism.eqCase "MONGODB-AWS" ∧
        (M.getUsername uri).all (·.bytes.isEmpty) then
      .error (invalidArgument
        "Failed to parse URI options: '%s' authentication mechanism requires username."
        [.bytes mechanism.bytes])
    else if mechanism.eqCase "MONGODB-X509" ∧ (M.getPassword uri).isSome then
      .error (invalidArgument
        "Failed to parse URI options: X509 authentication mechanism does not accept a password." [])
    else .ok uri
  | none =>
    -- `require_auth` is set by either of the two values looked at here
    if source.any (fun s => s ≠ CString.lit "$external") ∧ username.all (·.bytes.isEmpty) then
      .error (invalidArgument
        "Failed to parse URI options: Default authentication mechanism requires username." [])
    else .ok uri

/-- `php_phongo_uri_finalize_directconnection` -/
def uriFinalizeDirectconnection (uri : Uri) : Throws Uri :=
  if ¬ M.getOptionAsBool uri (CString.lit "directconnection") false then .ok uri
  else if (ascii "mongodb+srv://").isPrefixOf (M.getString uri).bytes then
    .error (invalidArgument
      "Failed to parse URI options: SRV URI not allowed with directConnection option." [])
  else if M.hosts uri > 1 then
    .error (invalidArgument
      "Failed to parse URI options: Multiple seeds not allowed with directConnection option." [])
  else .ok uri

/-- `php_phongo_uri_finalize_tls` -/
def uriFinalizeTls (uri : Uri) : Throws Uri :=
  let has option := M.hasOption uri (CString.lit option)
  let named option := Arg.bytes (ascii option)
  if has "tlsinsecure" ∧ (has "tlsallowinvalidcertificates" ∨ has "tlsallowinvalidhostnames" ∨
      has "tlsdisableocspendpointcheck" ∨ has "tlsdisablecertificaterevocationcheck") then
    .error (invalidArgument
      "Failed to parse URI options: %s may not be combined with %s, %s, %s, or %s."
      [named "tlsinsecure",named "tlsallowinvalidcertificates",named "tlsallowinvalidhostnames",
        named "tlsdisableocspendpointcheck",named "tlsdisablecertificaterevocationcheck"])
  else if has "tlsallowinvalidcertificates" ∧ (has "tlsdisableocspendpointcheck" ∨
      has "tlsdisablecertificaterevocationcheck") then
    .error (invalidArgument
      "Failed to parse URI options: %s may not be combined with %s or %s."
      [named "tlsallowinvalidcertificates",named "tlsdisableocspendpointcheck",
        named "tlsdisablecertificaterevocationcheck"])
  else .ok uri

/-- Read preference, read concern and write concern options, left to other functions. -/
def isConcernOption (key : CString) : Bool :=
  key.eqCase "journal" || key.eqCase "maxstalenessseconds" || key.eqCase "readconcernlevel" ||
    key.eqCase "readpreference" || key.eqCase "readpreferencetags" || key.eqCase "safe" ||
    key.eqCase "w" || key.eqCase "wtimeoutms"

/-- An option given as a string to one function of libmongoc. -/
def setUtf8Option (set : Uri → CString → Option Uri) (uri : Uri) (key : CString) (v : BsonValue) :
    Throws Uri := do
  let s ← utf8Option key v
  orThrow (failedToParse key) (set uri s)

def setUtf8UriOption (uri : Uri) (key : CString) (v : BsonValue) : Throws Uri := do
  let s ← utf8Option key v
  if key.eqCase "replicaset" ∧ s.bytes.isEmpty then
    .error (invalidArgument "Value for URI option \"%s\" cannot be empty string."
      [.bytes key.bytes])
  else
    orThrow
      (if key.eqCase "appname" then
        invalidArgument "Invalid appname value: '%s'" [.bytes s.bytes]
      else failedToParse key)
      (M.setOptionAsUtf8 uri key s)

def setAuthMechanismProperties (uri : Uri) (key : CString) : BsonValue → Throws Uri
  | .document properties =>
    if ¬ M.initStatic properties then
      .error (invalidArgument
        "Could not initialize BSON structure for auth mechanism properties" [])
    else orThrow (failedToParse key) (M.setMechanismProperties uri properties)
  | v => .error (uriInvalidType "array or object" key v)

def setGssapiServiceName (uri : Uri) (key : CString) (v : BsonValue) : Throws Uri :=
  if (M.getMechanismProperties uri).isSome then
    .error (invalidArgument
      "authMechanismProperties SERVICE_NAME already set, ignoring \"%s\"" [.bytes key.bytes])
  else do
    let s ← utf8Option key v
    orThrow (failedToParse key)
      (M.setMechanismProperties uri [(CString.lit "SERVICE_NAME",.utf8 s.bytes)])

/-- One round of the loop of `php_phongo_apply_options_to_uri`. -/
def applyOptionToUri (uri : Uri) (option : CString × BsonValue) : Throws Uri :=
  let (key,v) := option
  if isConcernOption key then .ok uri
  else if M.optionIsBool key then
    orThrow (failedToParse key) (M.setOptionAsBool uri key (M.iterAsBool v))
  else if M.optionIsInt32 key then
    match v with
    | .int32 n => orThrow (failedToParse key) (M.setOptionAsInt32 uri key n)
    | v => .error (uriInvalidType "32-bit integer" key v)
  else if M.optionIsUtf8 key then setUtf8UriOption M uri key v
  else if key.eqCase "username" then setUtf8Option M.setUsername uri key v
  else if key.eqCase "password" then setUtf8Option M.setPassword uri key v
  else if key.eqCase "authmechanism" then setUtf8Option M.setAuthMechanism uri key v
  else if key.eqCase "authsource" then setUtf8Option M.setAuthSource uri key v
  else if key.eqCase "authmechanismproperties" then setAuthMechanismProperties M uri key v
  else if key.eqCase "gssapiservicename" then setGssapiServiceName M uri key v
  else if key.eqCase "compressors" then setUtf8Option M.setCompressors uri key v
  else .ok uri

/-- `php_phongo_apply_options_to_uri` -/
def applyOptionsToUri (options : Doc) (uri : Uri) : Throws Uri :=
  if options.isEmpty then .ok uri
  else do
    let uri ← options.foldlM (applyOptionToUri M) uri
    let uri ← uriFinalizeAuth M uri
    uriFinalizeDirectconnection M uri

/-- One round of the loop of `php_phongo_apply_rc_options_to_uri`. -/
def applyRcOption (rc : ReadConcern) (option : CString × BsonValue) : Throws ReadConcern :=
  let (key,v) := option
  if key.eqCase "readconcernlevel" then do
    let level ← utf8Option key v
    return { rc with level := some level }
  else .ok rc

/-- `php_phongo_apply_rc_options_to_uri` -/
def applyRcOptionsToUri (options : Doc) (uri : Uri) : Throws Uri :=
  match M.getReadConcern uri with
  | none => .error (.phongo .mongocFailed "mongoc_uri_t does not have a read concern" [])
  | some rc =>
    if options.isEmpty then .ok uri
    else do
      let rc ← options.foldlM applyRcOption rc
      return M.setReadConcern uri rc

/-- `php_phongo_read_preference_tags_are_valid` -/
def readPreferenceTagsAreValid (tags : Doc) : Bool :=
  tags.all fun | (_,.document _) => true | _ => false

def readModeNamed (s : CString) : Option ReadMode :=
  if s.eqCase "primary" then some .primary
  else if s.eqCase "primarypreferred" then some .primaryPreferred
  else if s.eqCase "secondary" then some .secondary
  else if s.eqCase "secondarypreferred" then some .secondaryPreferred
  else if s.eqCase "nearest" then some .nearest
  else none

/-- `MONGOC_NO_MAX_STALENESS` -/
def noMaxStaleness : Int64 := -1

/-- `MONGOC_SMALLEST_MAX_STALENESS_SECONDS` -/
def smallestMaxStalenessSeconds : Int64 := 90

def primaryConflictsWithMaxStaleness : Exception :=
  invalidArgument "Primary read preference mode conflicts with maxStalenessSeconds" []

/-- One round of the loop of `php_phongo_apply_rp_options_to_uri`. -/
def applyRpOption (rp : ReadPrefs) (option : CString × BsonValue) : Throws ReadPrefs :=
  let (key,v) := option
  if key.eqCase "readpreference" then do
    let s ← utf8Option key v
    let mode ← orThrow (invalidArgument "Unsupported %s value: '%s'"
      [.bytes key.bytes,.bytes s.bytes]) (readModeNamed s)
    return { rp with mode := mode }
  else if key.eqCase "readpreferencetags" then
    match v with
    | .array tags =>
      if ¬ M.initStatic tags then
        .error (invalidArgument
          "Could not initialize BSON structure for read preference tags" [])
      else if ¬ readPreferenceTagsAreValid tags then
        .error (invalidArgument
          "Read preference tags must be an array of zero or more documents" [])
      else .ok { rp with tags := tags }
    | v => .error (uriInvalidType "array" key v)
  else if key.eqCase "maxstalenessseconds" then do
    let n ← intOption key v
    if n ≠ noMaxStaleness ∧ n < smallestMaxStalenessSeconds then
      .error (invalidArgument "Expected maxStalenessSeconds to be >= %d, %ld given"
        [.num smallestMaxStalenessSeconds.toInt,.num n.toInt])
    else if n ≠ noMaxStaleness ∧ n > 2147483647 then
      .error (invalidArgument "Expected maxStalenessSeconds to be <= %d, %ld given"
        [.num 2147483647,.num n.toInt])
    else if n ≠ noMaxStaleness ∧ rp.mode = .primary then
      .error primaryConflictsWithMaxStaleness
    else .ok { rp with maxStalenessSeconds := n }
  else .ok rp

/-- `php_phongo_apply_rp_options_to_uri` -/
def applyRpOptionsToUri (options : Doc) (uri : Uri) : Throws Uri :=
  match M.getReadPrefs uri with
  | none => .error (.phongo .mongocFailed "mongoc_uri_t does not have a read preference" [])
  | some rp =>
    if options.isEmpty then .ok uri
    else do
      let rp ← options.foldlM (applyRpOption M) rp
      if rp.mode = .primary ∧ ¬ rp.tags.isEmpty then 
        .error (invalidArgument "Primary read preference mode conflicts with tags" [])
      else if rp.mode = .primary ∧ rp.maxStalenessSeconds ≠ noMaxStaleness then
        .error primaryConflictsWithMaxStaleness
      else if ¬ M.readPrefsIsValid rp then
        .error (invalidArgument "Read preference is not valid" [])
      else .ok (M.setReadPrefs uri rp)

/-- `MONGOC_WRITE_CONCERN_W_UNACKNOWLEDGED`, `_ERRORS_IGNORED`, `_MAJORITY` and `_TAG` -/
def wUnacknowledged : Int32 := 0
def wErrorsIgnored : Int32 := -1
def wMajority : Int32 := -3
def wTag : Int32 := -4

/-- `mongoc_write_concern_set_w` -/
def WriteConcern.setW (wc : WriteConcern) (w : Int32) : WriteConcern := { wc with w := w }

/-- `mongoc_write_concern_set_wtag` -/
def WriteConcern.setWtag (wc : WriteConcern) (wtag : CString) : WriteConcern :=
  { wc with w := wTag, wtag := some wtag }

/-- One round of the loop of `php_phongo_apply_wc_options_to_uri`, which also carries
`ignore_safe`. -/
def applyWcOption (state : WriteConcern × Bool) (option : CString × BsonValue) :
    Throws (WriteConcern × Bool) :=
  let (wc,ignoreSafe) := state
  let (key,v) := option
  if key.eqCase "safe" then
    if ignoreSafe then .ok (wc,ignoreSafe)
    else do
      let safe ← boolOption key v
      return (wc.setW (if safe then 1 else wUnacknowledged),ignoreSafe)
  else if key.eqCase "wtimeoutms" then do
    let wtimeout ← intOption key v
    if wtimeout < 0 then
      .error (invalidArgument "Expected wtimeoutMS to be >= 0, %ld given" [.num wtimeout.toInt])
    else .ok ({ wc with wtimeout := wtimeout },ignoreSafe)
  else if key.eqCase "journal" then do
    let journal ← boolOption key v
    return ({ wc with journal := some journal },ignoreSafe)
  else if key.eqCase "w" then
    match v with
    | .int32 value =>
      if value = wErrorsIgnored ∨ value = wUnacknowledged ∨ value > 0 then .ok (wc.setW value,true)
      else .error (invalidArgument "Unsupported w value: %d" [.num value.toInt])
    | .utf8 s =>
      let s := CString.ofBytes s
      if s.eqCase "majority" then .ok (wc.setW wMajority,true) else .ok (wc.setWtag s,true)
    | v => .error (uriInvalidType "32-bit integer or string" key v)
  else .ok (wc,ignoreSafe)

/-- `php_phongo_apply_wc_options_to_uri` -/
def applyWcOptionsToUri (options : Doc) (uri : Uri) : Throws Uri :=
  match M.getWriteConcern uri with
  | none => .error (.phongo .mongocFailed "mongoc_uri_t does not have a write concern" [])
  | some wc =>
    if options.isEmpty then .ok uri
    else do
      let (wc,_) ← options.foldlM applyWcOption (wc,false)
      if wc.journal = some true ∧ (wc.w = wUnacknowledged ∨ wc.w = wErrorsIgnored) then
        .error (invalidArgument "Journal conflicts with w value: %d" [.num wc.w.toInt])
      else if ¬ M.writeConcernIsValid wc then
        .error (invalidArgument "Write concern is not valid" [])
      else .ok (M.setWriteConcern uri wc)

end

/-- A URI of which nothing but these is known. -/
structure PlainUri where
  readPrefs : ReadPrefs
  writeConcern : WriteConcern
  mechanismProperties : Option Doc

/-- A libmongoc without further URI options, which accepts any URI. -/
def MongocUri.plain : MongocUri PlainUri where
  newWithError _ := .ok ⟨⟨.primary,[],noMaxStaleness⟩,⟨-2,none,none,0⟩,none⟩
  optionIsBool _ := false
  optionIsInt32 _ := false
  optionIsUtf8 _ := false
  setOptionAsBool uri _ _ := some uri
  setOptionAsInt32 uri _ _ := some uri
  setOptionAsUtf8 uri _ _ := some uri
  setUsername uri _ := some uri
  setPassword uri _ := some uri
  setAuthMechanism uri _ := some uri
  setAuthSource uri _ := some uri
  setCompressors uri _ := some uri
  setMechanismProperties uri properties := some { uri with mechanismProperties := some properties }
  getMechanismProperties uri := uri.mechanismProperties
  getUsername _ := none
  getPassword _ := none
  getAuthMechanism _ := none
  credentialsAuthSource _ := none
  getOptionAsBool _ _ fallback := fallback
  getOptionAsUtf8 _ _ := none
  hasOption _ _ := false
  getTls _ := false
  getString _ := CString.lit "mongodb://127.0.0.1/"
  hosts _ := 1
  getReadConcern _ := some ⟨none⟩
  setReadConcern uri _ := uri
  getReadPrefs uri := some uri.readPrefs
  setReadPrefs uri rp := { uri with readPrefs := rp }
  readPrefsIsValid _ := true
  getWriteConcern uri := some uri.writeConcern
  setWriteConcern uri wc := { uri with writeConcern := wc }
  writeConcernIsValid _ := true
  iterAsBool v :=
    match v with
    | .bool b => b
    | _ => true
  initStatic _ := true

end Phongo
