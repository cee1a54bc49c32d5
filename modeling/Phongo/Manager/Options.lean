import Mathlib.Tactic.Common
import Phongo.Bson.Encode
import Phongo.Lib.Attempt
import Phongo.Manager.Uri

/-! Driver options of a Manager. -/
namespace Phongo
open OrderedTable

abbrev Options := List (Key × Zval)

/-- `php_array_fetch`, with nothing where `php_array_exists` finds nothing. -/
def Options.fetch (options : Options) (key : String) : Option Zval :=
  find? options (symtable (ascii key))

/-- `zend_is_true` -/
def Zval.isTrue : Zval → Bool
  | .undef _ => false
  | .null => false
  | .bool b => b
  | .long n => n ≠ 0
  | .double bits => bits ≠ 0 && bits ≠ 0x8000000000000000
  | .string s => s ≠ [] && s ≠ ascii "0"
  | .array _ els => !els.isEmpty
  | .bson _ => true
  | .cursorId _ => true
  | .object _ _ _ _ => true
  | .reference z => z.isTrue
  | .resource => true

inductive SslLibrary
  | openSsl | libreSsl | secureChannel | secureTransport
  deriving DecidableEq

/-- `mongoc_ssl_opt_t` -/
structure SslOpt where
  pemFile : Option CString
  pemPwd : Option CString
  caFile : Option CString
  caDir : Option CString
  crlFile : Option CString
  weakCertValidation : Bool
  allowInvalidHostname : Bool

/-- `mongoc_auto_encryption_opts_t` -/
structure AutoEncryptionOpts where
  keyVaultClient : Option ℕ
  keyVaultNamespace : Option (CString × CString)
  kmsProviders : Option Doc
  schemaMap : Option Doc
  bypassAutoEncryption : Bool
  extra : Option Doc

/-- The answers of PHP, of the application's code and of libmongoc during one construction. -/
structure Outside (Uri : Type) where
  mongocUri : MongocUri Uri
  libbson : Libbson
  userland : Userland
  /-- PHP_VERSION -/
  phpVersion : CString
  /-- PHP_MONGODB_VERSION -/
  driverVersion : CString
  /-- MONGOC_ENABLE_SSL -/
  ssl : Option SslLibrary
  /-- MONGOC_ENABLE_CLIENT_SIDE_ENCRYPTION -/
  clientSideEncryption : Bool
  /-- `convert_to_string`, and what the conversion throws -/
  convertToString : Zval → Bytes × List ℕ
  /-- what an error handler throws when told of an E_DEPRECATED notice -/
  deprecated : String → List ℕ
  /-- the bytes `php_var_serialize` writes for the URI and both options arrays, and what it
  throws -/
  varSerialize : CString → Option Options → Option Options → Bytes × List ℕ
  /-- whether `mongoc_client_new_from_uri` gives a client -/
  clientNewFromUri : Uri → Bool
  /-- the exception made of an error of `mongoc_client_enable_auto_encryption` -/
  enableAutoEncryption : Uri → AutoEncryptionOpts → Option Exception
  /-- libmongoc does not enable automatic encryption without KMS providers -/
  kmsProvidersRequired : ∀ uri opts, opts.kmsProviders = none →
    (enableAutoEncryption uri opts).isSome
  /-- the exception made of an error of `mongoc_client_set_server_api` -/
  setServerApi : Uri → Zval → Option Exception
  /-- `mongoc_client_set_apm_callbacks` -/
  setApmCallbacks : Uri → Bool

/-- Code of the application, which the engine does not run while an exception is pending. -/
def userCode {α : Type} (r : α × List ℕ) : Attempt Exception α := fun eg =>
  (some r.1,if eg.isEmpty then thrownBy r.2 else eg)

theorem reports_userCode {α : Type} (r : α × List ℕ) : (userCode r).Reports := fun eg h => by
  simp [userCode] at h

theorem keeps_userCode {α : Type} (r : α × List ℕ) : (userCode r).Keeps := fun eg h => by
  cases eg with
  | nil => exact absurd rfl h
  | cons e eg => simp [userCode]

section
variable {Uri : Type} (E : Outside Uri)

/-- `php_array_zval_to_string` -/
def Outside.zvalToString : Zval → Attempt Exception Bytes
  | .null => pure []
  | .reference z => Outside.zvalToString z
  | .string s => pure s
  | z => userCode (E.convertToString z)

/-- `php_error_docref` with E_DEPRECATED -/
def Outside.deprecate (notice : String) : Attempt Exception Unit :=
  userCode ((),E.deprecated notice)

/-- A driver option that stands for a URI option; `context` if it is named after an option of a
stream context. -/
structure TlsDriverOption where
  key : String
  context : Bool
  uriOption : String
  replacement : String

def TlsDriverOption.notice (o : TlsDriverOption) : String :=
  "The \"" ++ o.key ++ "\" " ++ (if o.context then "context " else "") ++
    "driver option is deprecated. Please use the \"" ++ o.replacement ++ "\" URI option instead."

def TlsDriverOption.failedToParse (o : TlsDriverOption) : Exception :=
  invalidArgument "Failed to parse \"%s\" driver option" [.bytes (ascii o.key)]

abbrev SetTlsOption (Uri : Type) := TlsDriverOption → Zval → Uri → Attempt Exception Uri

def Outside.setTlsBool : SetTlsOption Uri := fun o z uri =>
  Attempt.orThrow o.failedToParse
    (E.mongocUri.setOptionAsBool uri (CString.lit o.uriOption) z.isTrue)

/-- `php_phongo_apply_driver_option_to_uri` -/
def Outside.setTlsString : SetTlsOption Uri := fun o z uri => do
  let value ← E.zvalToString z
  Attempt.orThrow o.failedToParse
    (E.mongocUri.setOptionAsUtf8 uri (CString.lit o.uriOption) (CString.ofBytes value))

def Outside.applyFirst (set : SetTlsOption Uri) (options : Options) :
    List TlsDriverOption → Uri → Attempt Exception Uri
  | [], uri => pure uri
  | o::os, uri =>
    match options.fetch o.key with
    | some z => do
      let uri ← set o z uri
      E.deprecate o.notice
      return uri
    | none => Outside.applyFirst set options os uri

/-- `php_phongo_apply_driver_options_to_uri` -/
def Outside.applyDriverOptionsToUri (driverOptions : Option Options) (uri : Uri) :
    Attempt Exception Uri :=
  match driverOptions with
  | none => pure uri
  | some options => do
    let uri ← E.applyFirst E.setTlsBool options
      [⟨"allow_invalid_hostname",false,"tlsallowinvalidhostnames","tlsAllowInvalidHostnames"⟩] uri
    let uri ← E.applyFirst E.setTlsBool options
      [⟨"weak_cert_validation",false,"tlsallowinvalidcertificates",
          "tlsAllowInvalidCertificates"⟩,
        ⟨"allow_self_signed",true,"tlsallowinvalidcertificates",
          "tlsAllowInvalidCertificates"⟩] uri
    let uri ← E.applyFirst E.setTlsString options
      [⟨"pem_file",false,"tlscertificatekeyfile","tlsCertificateKeyFile"⟩,
        ⟨"local_cert",true,"tlscertificatekeyfile","tlsCertificateKeyFile"⟩] uri
    let uri ← E.applyFirst E.setTlsString options
      [⟨"pem_pwd",false,"tlscertificatekeyfilepassword","tlsCertificateKeyFilePassword"⟩,
        ⟨"passphrase",true,"tlscertificatekeyfilepassword","tlsCertificateKeyFilePassword"⟩] uri
    E.applyFirst E.setTlsString options
      [⟨"ca_file",false,"tlscafile","tlsCAFile"⟩,⟨"cafile",true,"tlscafile","tlsCAFile"⟩] uri

/-- `php_phongo_mongoc_ssl_opts_from_uri` -/
def Outside.sslOptsFromUri (uri : Uri) : SslOpt :=
  let M := E.mongocUri
  let insecure := M.getOptionAsBool uri (CString.lit "tlsinsecure") false
  { pemFile := M.getOptionAsUtf8 uri (CString.lit "tlscertificatekeyfile")
    pemPwd := M.getOptionAsUtf8 uri (CString.lit "tlscertificatekeyfilepassword")
    caFile := M.getOptionAsUtf8 uri (CString.lit "tlscafile")
    caDir := none
    crlFile := none
    weakCertValidation :=
      M.getOptionAsBool uri (CString.lit "tlsallowinvalidcertificates") insecure
    allowInvalidHostname :=
      M.getOptionAsBool uri (CString.lit "tlsallowinvalidhostnames") insecure }

/-- `any_ssl_option_set` -/
def SslOpt.anySet (o : SslOpt) : Bool :=
  o.pemFile.isSome || o.pemPwd.isSome || o.caFile.isSome || o.caDir.isSome || o.crlFile.isSome ||
    o.weakCertValidation || o.allowInvalidHostname

def SslOpt.unset : SslOpt := ⟨none,none,none,none,none,false,false⟩

def rejectOption (unsupported : Bool) (options : Options) (key message : String) :
    Attempt Exception Unit :=
  if unsupported ∧ (options.fetch key).isSome then
    Attempt.throw (invalidArgument message [])
  else pure ()

/-- `php_phongo_fetch_ssl_opt_string` -/
def Outside.fetchSslOptString (options : Options) (key : String) :
    Attempt Exception (Option CString) :=
  match options.fetch key with
  | none => pure none
  | some z => do
    let value ← E.zvalToString z
    return some (CString.ofBytes value)

/-- "ca_dir", or the "capath" of a stream context. -/
def Outside.fetchCaDir (options : Options) : Attempt Exception (Option CString) :=
  match options.fetch "ca_dir",options.fetch "capath" with
  | none,some _ => do
    let caDir ← E.fetchSslOptString options "capath"
    E.deprecate ("The \"capath\" context driver option is deprecated. " ++
      "Please use the \"ca_dir\" driver option instead.")
    return caDir
  | _,_ => E.fetchSslOptString options "ca_dir"

/-- `php_phongo_make_ssl_opt` -/
def Outside.makeSslOpt (library : SslLibrary) (driverOptions : Option Options) (uri : Uri) :
    Attempt Exception (Option SslOpt) :=
  match driverOptions with
  | none => pure none
  | some options => do
    let native := library = .secureChannel ∨ library = .secureTransport
    rejectOption native options "ca_dir"
      "\"ca_dir\" option is not supported by Secure Channel and Secure Transport"
    rejectOption native options "capath"
      "\"capath\" option is not supported by Secure Channel and Secure Transport"
    rejectOption (library = .libreSsl ∨ library = .secureTransport) options "crl_file"
      "\"crl_file\" option is not supported by LibreSSL and Secure Transport"
    let opt := if E.mongocUri.getTls uri then E.sslOptsFromUri uri else SslOpt.unset
    let caDir ← E.fetchCaDir options
    let crlFile ← E.fetchSslOptString options "crl_file"
    let opt := { opt with caDir := caDir, crlFile := crlFile }
    return if opt.anySet then some opt else none

/-- What `mongoc_handshake_data_append` is given. -/
structure HandshakeData where
  driverName : Bytes
  driverVersion : Bytes
  platform : Bytes

/-- `php_phongo_extract_handshake_data` -/
def extractHandshakeData (driver : Options) (key : String) : Attempt Exception (Option Bytes) :=
  match driver.fetch key with
  | none => pure none
  | some (.string s) => pure (some s)
  | some z =>
    Attempt.throw (invalidArgument
      "Expected \"%s\" handshake option to be a string, %s given"
      [.bytes (ascii key),.bytes z.classOrTypeName])

/-- `php_phongo_concat_handshake_data` -/
def concatHandshakeData (default : Bytes) : Option Bytes → Bytes
  | some custom => default ++ ascii " / " ++ cstr custom ++ ascii " "
  | none => default ++ ascii " "

/-- `php_phongo_handshake_data_append` -/
def Outside.handshakeDataAppend (name version platform : Option Bytes) : HandshakeData where
  driverName := concatHandshakeData (ascii "ext-mongodb:PHP") name
  driverVersion := concatHandshakeData E.driverVersion.bytes version
  platform := concatHandshakeData (ascii "PHP " ++ E.phpVersion.bytes) platform

/-- `php_phongo_set_handshake_data`, which returns nothing: the caller cannot tell failure but by
the exception. -/
def Outside.setHandshakeData (driverOptions : Option Options) : Attempt Exception HandshakeData :=
  match driverOptions.bind (·.fetch "driver") with
  | none => pure (E.handshakeDataAppend none none none)
  | some (.array _ driver) => do
    let name ← extractHandshakeData driver "name"
    let version ← extractHandshakeData driver "version"
    let platform ← extractHandshakeData driver "platform"
    return E.handshakeDataAppend name version platform
  | some z =>
    Attempt.throw (invalidArgument "Expected \"driver\" driver option to be an array, %s given"
      [.bytes z.classOrTypeName])

end

/-- A value `php_phongo_extract_handshake_data` rejects. -/
def badHandshakeValue (driver : Options) (key : String) : Bool :=
  match driver.fetch key with
  | none => false
  | some (.string _) => false
  | some _ => true

/-- A "driver" option that is no array, or one with a name, version or platform that is no
string. -/
def malformedHandshake (driverOptions : Option Options) : Bool :=
  match driverOptions.bind (·.fetch "driver") with
  | none => false
  | some (.array _ driver) =>
    badHandshakeValue driver "name" || badHandshakeValue driver "version" ||
      badHandshakeValue driver "platform"
  | some _ => true

def Outside.plain : Outside PlainUri where
  mongocUri := MongocUri.plain
  libbson := Libbson.ascii
  userland := Userland.keeping ClassEntry.person
  phpVersion := CString.lit "7.4.0"
  driverVersion := CString.lit "1.11.0-dev"
  ssl := none
  clientSideEncryption := true
  convertToString _ := ([],[])
  deprecated _ := []
  varSerialize uri _ _ := (uri.bytes,[])
  clientNewFromUri _ := true
  enableAutoEncryption _ opts :=
    if opts.kmsProviders.isSome then none
    else some (invalidArgument "KMS providers option required" [])
  kmsProvidersRequired _ opts h := by simp [h]
  setServerApi _ _ := none
  setApmCallbacks _ := true

end Phongo
