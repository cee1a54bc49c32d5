import Mathlib.Tactic.Common
import Phongo.Manager.Options

/-! Managers and the clients of one process: `phongo_manager_init`, and what a Manager's
constructor and its free handler do around it. -/
namespace Phongo
open OrderedTable

/-- `php_phongo_manager_t` with the object it belongs to. -/
structure Manager where
  id : ℕ
  createdByPid : ℕ
  clientHash : Option Bytes
  usePersistentClient : Bool
  client : Option ℕ
  keyVaultClientManager : Option Manager

/-- `php_phongo_pclient_t` -/
structure Pclient where
  client : ℕ
  createdByPid : ℕ
  lastResetByPid : ℕ
  isPersistent : Bool
  deriving DecidableEq

/-- `mongoc_client_t`: the process that made it and the client automatic encryption reads its
keys with. -/
structure MongocClient where
  createdIn : ℕ
  keyVaultClient : Option ℕ
  deriving DecidableEq

/-- What libmongoc is asked to do with a client. -/
inductive ClientCall
  | reset (client : ℕ)
  | destroy (client : ℕ)
  /-- a command, a query, a bulk write or the start of a session -/
  | use (client : ℕ)
  deriving DecidableEq

inductive HandleKind
  | server | cursor | session
  deriving DecidableEq

structure Handle where
  id : ℕ
  kind : HandleKind
  manager : Manager
  createdByPid : ℕ

/-- One PHP process. A client is the index of its `mongoc_client_t` among all the process has
had. -/
structure Process where
  pid : ℕ
  clients : List MongocClient
  /-- `MONGODB_G(persistent_clients)` -/
  persistentClients : Table Bytes Pclient
  /-- `MONGODB_G(request_clients)` -/
  requestClients : List Pclient
  /-- `MONGODB_G(managers)` -/
  managers : List ℕ
  /-- the Manager objects that are alive -/
  objects : List Manager
  handles : List Handle
  /-- the number of objects made so far -/
  made : ℕ
  /-- the calls of `mongoc_handshake_data_append` -/
  handshakes : List HandshakeData
  /-- newest first -/
  calls : List ClientCall

structure ManagerArgs where
  uriString : CString
  options : Option Options
  driverOptions : Option Options

def managerClassName : Bytes := ascii "MongoDB\\Driver\\Manager"
def serverApiClassName : Bytes := ascii "MongoDB\\Driver\\ServerApi"

/-- `php_phongo_manager_ce` -/
def ClassEntry.manager : ClassEntry := ⟨managerClassName,.none,false,false,true⟩

/-- `instanceof_function` for a final class without subclasses. -/
def Zval.isInstanceOf (className : Bytes) : Zval → Bool
  | .object ce _ _ _ => ce.name = className
  | _ => false

namespace Process

/-- `Z_MANAGER_OBJ_P` of a value that is a Manager object. -/
def managerOf (s : Process) : Zval → Option Manager
  | .object ce (some id) _ _ =>
    if ce.name = managerClassName then s.objects.find? (·.id = id) else none
  | _ => none

/-- `php_phongo_manager_prepare_manager_for_hash` -/
def prepareManagerForHash (s : Process) (driverOptions : Options) : Options :=
  match driverOptions.fetch "autoEncryption" with
  | some (.array ht autoEncryption) =>
    match (Options.fetch autoEncryption "keyVaultClient").bind s.managerOf with
    | some manager =>
      update driverOptions (symtable (ascii "autoEncryption"))
        (.array ht (update autoEncryption (symtable (ascii "keyVaultClient"))
          (.string (manager.clientHash.getD []))))
    | none => driverOptions
  | _ => driverOptions

end Process

def hashPrefix (pid : ℕ) : Bytes := ascii "a:4:\x7bs:3:\"pid\";i:" ++ (digits pid ++ [59])

section
variable {Uri : Type} (E : Outside Uri)

/-- `php_phongo_manager_make_client_hash` -/
def Outside.makeClientHash (s : Process) (a : ManagerArgs) : Attempt Exception Bytes := do
  let serialized ← userCode (E.varSerialize a.uriString a.options
    (a.driverOptions.map s.prepareManagerForHash))
  Attempt.check
  return hashPrefix s.pid ++ serialized

def usePersistentClient (driverOptions : Option Options) : Bool :=
  match driverOptions.bind (·.fetch "disableClientPersistence") with
  | some z => !z.isTrue
  | none => true

/-- `php_phongo_zval_to_bson`, whose only report is the exception. -/
def Outside.toBson (z : Zval) : Attempt Exception Doc := fun eg =>
  let r := zvalToBson E.libbson E.userland z .none eg
  (some r.1,r.2.2)

/-- `bson_options` in `phongo_manager_init` -/
def Outside.encodeOptions : Option Options → Attempt Exception Doc
  | some options => E.toBson (.array none options)
  | none => pure []

/-- The TLS part of `phongo_manager_init`. -/
def Outside.applyTls (driverOptions : Option Options) (uri : Uri) :
    Attempt Exception (Uri × Option SslOpt) :=
  match E.ssl with
  | some library => do
    let uri ← E.applyDriverOptionsToUri driverOptions uri
    let sslOpt ← E.makeSslOpt library driverOptions uri
    Attempt.check
    let uri ← Attempt.ofExcept (uriFinalizeTls E.mongocUri uri)
    return (uri,sslOpt)
  | none =>
    if E.mongocUri.getTls uri then
      Attempt.throw (invalidArgument
        "Cannot create SSL client. SSL is not enabled in this build." [])
    else pure (uri,none)

/-- What `phongo_manager_init` does before it makes a client. -/
def Outside.prepareUri (a : ManagerArgs) : Attempt Exception (Uri × Option SslOpt) := do
  let options ← E.encodeOptions a.options
  Attempt.check
  let uri ← Attempt.ofExcept (makeUri E.mongocUri a.uriString)
  let uri ← Attempt.ofExcept (applyOptionsToUri E.mongocUri options uri)
  let uri ← Attempt.ofExcept (applyRcOptionsToUri E.mongocUri options uri)
  let uri ← Attempt.ofExcept (applyRpOptionsToUri E.mongocUri options uri)
  let uri ← Attempt.ofExcept (applyWcOptionsToUri E.mongocUri options uri)
  E.applyTls a.driverOptions uri

/-- The array and the "keyVaultClient" part of `phongo_manager_set_auto_encryption_opts`. -/
def keyVaultManager (s : Process) (m : Manager) (autoEncryption : Options) :
    Attempt Exception (Option Manager) :=
  match autoEncryption.fetch "keyVaultClient" with
  | none => pure none
  | some z =>
    match s.managerOf z with
    | none =>
      Attempt.throw (invalidArgument "Expected \"keyVaultClient\" encryption option to be %s, %s given"
        [.bytes managerClassName,.bytes z.classOrTypeName])
    | some keyVault =>
      if m.usePersistentClient ≠ keyVault.usePersistentClient then
        Attempt.throw (invalidArgument ("The \"disableClientPersistence\" option for a Manager " ++
          "and its \"keyVaultClient\" must be the same") [])
      else pure (some keyVault)

/-- `phongo_split_namespace` -/
def splitNamespace (ns : CString) : Option (CString × CString) :=
  if 46 ∈ ns.bytes then
    some (CString.ofBytes (ns.bytes.takeWhile (· ≠ 46)),
      CString.ofBytes ((ns.bytes.dropWhile (· ≠ 46)).drop 1))
  else none

def Outside.keyVaultNamespace (autoEncryption : Options) :
    Attempt Exception (Option (CString × CString)) :=
  match autoEncryption.fetch "keyVaultNamespace" with
  | none => pure none
  | some z => do
    let ns ← E.zvalToString z
    let ns ← Attempt.orThrow
      (invalidArgument
        "Expected \"keyVaultNamespace\" encryption option to contain a full collection name" [])
      (splitNamespace (CString.ofBytes ns))
    return some ns

def Outside.encryptionDocument (autoEncryption : Options) (key : String)
    (accepts : Zval → Bool) (rejection : String) : Attempt Exception (Option Doc) :=
  match autoEncryption.fetch key with
  | none => pure none
  | some z =>
    if accepts z then do
      let document ← E.toBson z
      Attempt.check
      return some document
    else Attempt.throw (invalidArgument rejection [])

/-- What `phongo_manager_set_auto_encryption_opts` does once the Manager has its key vault
Manager; it yields the key vault client that libmongoc is given. -/
def Outside.enableAutoEncryptionOpts (uri : Uri) (keyVaultClient : Option ℕ)
    (autoEncryption : Options) : Attempt Exception (Option ℕ) := do
  let keyVaultNamespace ← E.keyVaultNamespace autoEncryption
  let kmsProviders ← E.encryptionDocument autoEncryption "kmsProviders" Zval.isArrayOrObject
    "Expected \"kmsProviders\" encryption option to be an array or object"
  let schemaMap ← E.encryptionDocument autoEncryption "schemaMap" Zval.isArrayOrObject
    "Expected \"schemaMap\" encryption option to be an array or object"
  let bypass := (autoEncryption.fetch "bypassAutoEncryption").any Zval.isTrue
  let extra ← E.encryptionDocument autoEncryption "extraOptions" (fun _ => true) ""
  match E.enableAutoEncryption uri
      ⟨keyVaultClient,keyVaultNamespace,kmsProviders,schemaMap,bypass,extra⟩ with
  | some e => Attempt.throw e
  | none => pure keyVaultClient

/-- `phongo_manager_set_auto_encryption_opts`; where it fails late the Manager already has its
key vault Manager. -/
def Outside.setAutoEncryptionOpts (s : Process) (m : Manager) (uri : Uri)
    (driverOptions : Option Options) (eg : Pending) : Manager × Option (Option ℕ) × Pending :=
  match driverOptions.bind (·.fetch "autoEncryption") with
  | none => (m,some none,eg)
  | some z =>
    if ¬ E.clientSideEncryption then
      (m,Attempt.throw (invalidArgument
        ("%s Please recompile with support for libmongocrypt using the " ++
          "with-mongodb-client-side-encryption configure switch.")
        [.bytes (ascii "Cannot enable automatic field-level encryption.")]) eg)
    else
      match z with
      | .array _ autoEncryption =>
        match keyVaultManager s m autoEncryption eg with
        | (none,eg) => (m,none,eg)
        | (some keyVault,eg) =>
          ({ m with keyVaultClientManager := keyVault },
            E.enableAutoEncryptionOpts uri (keyVault.bind (·.client)) autoEncryption eg)
      | z =>
        (m,Attempt.throw (invalidArgument
          "Expected \"autoEncryption\" driver option to be array, %s given"
          [.bytes z.classOrTypeName]) eg)

/-- `phongo_manager_set_serverapi_opts` -/
def Outside.setServerapiOpts (uri : Uri) (driverOptions : Option Options) :
    Attempt Exception Unit :=
  match driverOptions.bind (·.fetch "serverApi") with
  | none => pure ()
  | some z =>
    if ¬ z.isInstanceOf serverApiClassName then
      Attempt.throw (invalidArgument "Expected \"serverApi\" driver option to be %s, %s given"
        [.bytes serverApiClassName,.bytes z.classOrTypeName])
    else
      match E.setServerApi uri z with
      | some e => Attempt.throw e
      | none => pure ()

/-- `phongo_apm_set_callbacks` -/
def Outside.apmSetCallbacks (uri : Uri) : Attempt Exception Unit :=
  if E.setApmCallbacks uri then pure ()
  else Attempt.throw (.phongo .unexpectedValue "Failed to set APM callbacks" [])

end

namespace Process

/-- `php_phongo_find_persistent_client` -/
def findPersistentClient (s : Process) (hash : Bytes) : Option ℕ :=
  (find? s.persistentClients hash).map (·.client)

/-- `php_phongo_client_register`; adding to a registry does not fail. -/
def clientRegister (s : Process) (m : Manager) (client : ℕ) : Process :=
  let pclient := ⟨client,s.pid,0,m.usePersistentClient⟩
  if m.usePersistentClient then
    { s with persistentClients := update s.persistentClients (m.clientHash.getD []) pclient }
  else { s with requestClients := s.requestClients ++ [pclient] }

/-- `php_phongo_pclient_destroy` -/
def pclientDestroy (s : Process) (pclient : Pclient) : Process :=
  if pclient.createdByPid = s.pid then { s with calls := .destroy pclient.client::s.calls } else s

/-- `php_phongo_client_unregister` -/
def clientUnregister (s : Process) (m : Manager) : Process :=
  if m.usePersistentClient then s
  else
    match s.requestClients.find? (fun pclient => some pclient.client = m.client) with
    | some pclient =>
      { s with requestClients :=
          s.requestClients.eraseP fun pclient => some pclient.client = m.client }.pclientDestroy
        pclient
    | none => s

/-- `php_phongo_manager_free_object`; the object store drops the object. -/
def freeManager (s : Process) (m : Manager) : Process :=
  let s := { s with managers := s.managers.erase m.id
                    objects := s.objects.filter (·.id ≠ m.id) }
  if m.client.isSome then s.clientUnregister m else s

/-- `php_phongo_manager_create_object` -/
def createManager (s : Process) : Manager × Process :=
  (⟨s.made,s.pid,none,false,none,none⟩,{ s with made := s.made + 1 })

end Process

/-- What `phongo_manager_init` leaves. -/
structure Initialised where
  process : Process
  manager : Manager
  exceptions : Pending

/-- The rest of `Manager::__construct`; an object whose constructor throws is freed. -/
def Initialised.register (r : Initialised) : Process × Pending :=
  if r.exceptions ≠ [] then (r.process.freeManager r.manager,r.exceptions)
  else if r.manager.id ∈ r.process.managers then
    (r.process.freeManager r.manager,
      throwException .unexpectedValue "Failed to add Manager to internal registry" [] [])
  else
    ({ r.process with managers := r.process.managers ++ [r.manager.id]
                      objects := r.process.objects ++ [r.manager] },[])

section
variable {Uri : Type} (E : Outside Uri)

/-- The end of `phongo_manager_init`, with the client made from `uri`. -/
def Outside.finishClient (s : Process) (m : Manager) (client : ℕ) (uri : Uri)
    (driverOptions : Option Options) (eg : Pending) : Initialised :=
  match E.setAutoEncryptionOpts s m uri driverOptions eg with
  | (m,none,eg) => ⟨s,m,eg⟩
  | (m,some keyVaultClient,eg) =>
    let s := { s with clients := s.clients.set client ⟨s.pid,keyVaultClient⟩ }
    match (do E.setServerapiOpts uri driverOptions; E.apmSetCallbacks uri) eg with
    | (none,eg) => ⟨s,m,eg⟩
    | (some (),eg) => ⟨s.clientRegister m client,m,eg⟩

/-- `php_phongo_make_mongo_client` and what follows it in `phongo_manager_init`. No exception of
`php_phongo_set_handshake_data` is looked for. -/
def Outside.makeMongoClient (s : Process) (m : Manager) (uri : Uri) (a : ManagerArgs)
    (eg : Pending) : Initialised :=
  let handshake := E.setHandshakeData a.driverOptions eg
  let s := { s with handshakes := s.handshakes ++ handshake.1.toList }
  if E.clientNewFromUri uri then
    let client := s.clients.length
    E.finishClient { s with clients := s.clients ++ [⟨s.pid,none⟩] }
      { m with client := some client } client uri a.driverOptions handshake.2
  else
    ⟨s,m,throwException .runtime "Failed to create Manager from URI: '%s'"
      [.bytes a.uriString.bytes] handshake.2⟩

/-- `phongo_manager_init` -/
def Outside.managerInit (s : Process) (m : Manager) (a : ManagerArgs) : Initialised :=
  match E.makeClientHash s a [] with
  | (none,eg) => ⟨s,m,eg⟩
  | (some hash,eg) =>
    let m := { m with
      clientHash := some hash, usePersistentClient := usePersistentClient a.driverOptions }
    match if m.usePersistentClient then s.findPersistentClient hash else none with
    | some client => ⟨s,{ m with client := some client },eg⟩
    | none =>
      match E.prepareUri a eg with
      | (none,eg) => ⟨s,m,eg⟩
      | (some (uri,_),eg) => E.makeMongoClient s m uri a eg

/-- `Manager::__construct` on a fresh object. -/
def Outside.construct (s : Process) (a : ManagerArgs) : Process × Pending :=
  (E.managerInit s.createManager.2 s.createManager.1 a).register

end

def ManagerArgs.vault : ManagerArgs := ⟨CString.lit "mongodb://vault",none,none⟩

def ManagerArgs.encrypted : ManagerArgs :=
  ⟨CString.lit "mongodb://data",none,some [(.str (ascii "autoEncryption"),.array none
    [(.str (ascii "keyVaultClient"),.object ClassEntry.manager (some 0) [] .null),
      (.str (ascii "keyVaultNamespace"),.string (ascii "db.keys")),
      (.str (ascii "kmsProviders"),.array none [(.str (ascii "local"),.array none
        [(.str (ascii "key"),.bson (.binary (List.replicate 96 0) 0))])])])]⟩

end Phongo
