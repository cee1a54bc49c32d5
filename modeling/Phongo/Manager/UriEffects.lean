import Phongo.Manager.Uri
import Phongo.Lib.Fold

/-! What each URI option does, apart from the order of the options: which value it gives to
which part of the URI, and under which condition on that part it is accepted. -/
namespace Phongo
open Loop

/-- What a URI's getters tell, as far as options are checked against it. -/
@[ext] structure UriView where
  readPrefs : Option ReadPrefs
  writeConcern : Option WriteConcern
  mechanismProperties : Option Doc
  username : Option CString
  password : Option CString
  authMechanism : Option CString
  authSource : Option CString
  directConnection : Bool
  string : CString
  hosts : ℕ

inductive UriSetting
  | bool (key : CString) (b : Bool)
  | int32 (key : CString) (n : Int32)
  | utf8 (key s : CString)
  | username (s : CString)
  | password (s : CString)
  | authMechanism (s : CString)
  | authSource (s : CString)
  | compressors (s : CString)
  | mechanismProperties (properties : Doc)

def UriSetting.effect (v : UriView) : UriSetting → UriView
  | .bool key b => if key.eqCase "directconnection" then { v with directConnection := b } else v
  | .int32 _ _ | .utf8 _ _ | .compressors _ => v
  | .username s => { v with username := some s }
  | .password s => { v with password := some s }
  | .authMechanism s => { v with authMechanism := some s }
  | .authSource s => { v with authSource := some s }
  | .mechanismProperties properties => { v with mechanismProperties := some properties }

namespace MongocUri
variable {Uri : Type} (M : MongocUri Uri)

def view (uri : Uri) : UriView where
  readPrefs := M.getReadPrefs uri
  writeConcern := M.getWriteConcern uri
  mechanismProperties := M.getMechanismProperties uri
  username := M.getUsername uri
  password := M.getPassword uri
  authMechanism := M.getAuthMechanism uri
  authSource := M.credentialsAuthSource uri
  directConnection := M.getOptionAsBool uri (CString.lit "directconnection") false
  string := M.getString uri
  hosts := M.hosts uri

def set (uri : Uri) : UriSetting → Option Uri
  | .bool key b => M.setOptionAsBool uri key b
  | .int32 key n => M.setOptionAsInt32 uri key n
  | .utf8 key s => M.setOptionAsUtf8 uri key s
  | .username s => M.setUsername uri s
  | .password s => M.setPassword uri s
  | .authMechanism s => M.setAuthMechanism uri s
  | .authSource s => M.setAuthSource uri s
  | .compressors s => M.setCompressors uri s
  | .mechanismProperties properties => M.setMechanismProperties uri properties

/-- The setters by key are meant for the keys of their kind. -/
def Settable : UriSetting → Prop
  | .bool key _ => M.optionIsBool key ∧ isConcernOption key = false
  | .int32 key _ => M.optionIsInt32 key ∧ isConcernOption key = false
  | .utf8 key _ => M.optionIsUtf8 key ∧ isConcernOption key = false
  | _ => True

/-- Libmongoc's setters: the value alone decides whether one succeeds, and it changes what its
own getter tells and nothing else. -/
structure Regular : Prop where
  set_isSome : ∀ {uri setting} uri', M.Settable setting →
    (M.set uri setting).isSome = (M.set uri' setting).isSome
  view_set : ∀ {uri uri' setting}, M.Settable setting → M.set uri setting = some uri' →
    M.view uri' = setting.effect (M.view uri)
  view_setReadPrefs : ∀ uri rp,
    M.view (M.setReadPrefs uri rp) = { M.view uri with readPrefs := some rp }
  view_setWriteConcern : ∀ uri wc,
    M.view (M.setWriteConcern uri wc) = { M.view uri with writeConcern := some wc }

/-- What an option has `php_phongo_apply_options_to_uri` do. -/
inductive Action
  | skip
  | refuse
  | set (setting : UriSetting)
  /-- set, unless the URI has properties already -/
  | serviceName (properties : Doc)

def Action.ofUtf8 (setting : CString → UriSetting) : BsonValue → Action
  | .utf8 s => .set (setting (CString.ofBytes s))
  | _ => .refuse

def action (option : CString × BsonValue) : Action :=
  let (key,v) := option
  if isConcernOption key then .skip
  else if M.optionIsBool key then .set (.bool key (M.iterAsBool v))
  else if M.optionIsInt32 key then
    match v with
    | .int32 n => .set (.int32 key n)
    | _ => .refuse
  else if M.optionIsUtf8 key then
    match v with
    | .utf8 s =>
      if key.eqCase "replicaset" ∧ (CString.ofBytes s).bytes.isEmpty then .refuse
      else .set (.utf8 key (CString.ofBytes s))
    | _ => .refuse
  else if key.eqCase "username" then Action.ofUtf8 .username v
  else if key.eqCase "password" then Action.ofUtf8 .password v
  else if key.eqCase "authmechanism" then Action.ofUtf8 .authMechanism v
  else if key.eqCase "authsource" then Action.ofUtf8 .authSource v
  else if key.eqCase "authmechanismproperties" then
    match v with
    | .document properties =>
      if M.initStatic properties then .set (.mechanismProperties properties) else .refuse
    | _ => .refuse
  else if key.eqCase "gssapiservicename" then
    match v with
    | .utf8 s => .serviceName [(CString.lit "SERVICE_NAME",.utf8 (CString.ofBytes s).bytes)]
    | _ => .refuse
  else if key.eqCase "compressors" then Action.ofUtf8 .compressors v
  else .skip

/-- The option is right in itself, and libmongoc takes its value. -/
def Fits (uri : Uri) (option : CString × BsonValue) : Prop :=
  match M.action option with
  | .skip => True
  | .refuse => False
  | .set setting => (M.set uri setting).isSome
  | .serviceName properties => (M.set uri (.mechanismProperties properties)).isSome

def IsServiceName (option : CString × BsonValue) : Prop :=
  ∃ properties, M.action option = .serviceName properties

/-- Where an option is accepted; `uri` is any URI. -/
def allowed (uri : Uri) (v : UriView) (option : CString × BsonValue) : Prop :=
  M.Fits uri option ∧ (M.IsServiceName option → v.mechanismProperties = none)

def effect (v : UriView) (option : CString × BsonValue) : UriView :=
  match M.action option with
  | .skip | .refuse => v
  | .set setting => setting.effect v
  | .serviceName properties =>
    { v with mechanismProperties := v.mechanismProperties.or (some properties) }

/-- How a round of the loop ends, by the action of its option. -/
def Ends (uri : Uri) (result : Throws Uri) : Action → Prop
  | .skip => result = .ok uri
  | .refuse => ∃ e, result = .error e
  | .set setting => ∃ e, result = orThrow e (M.set uri setting)
  | .serviceName properties => ∃ e, result =
      if (M.getMechanismProperties uri).isSome then .error e
      else orThrow e (M.set uri (.mechanismProperties properties))

variable {M}

theorem ends_utf8 {set : Uri → CString → Option Uri} {setting : CString → UriSetting} {uri : Uri}
    (hset : ∀ s, set uri s = M.set uri (setting s)) (key : CString) (v : BsonValue) :
    M.Ends uri (setUtf8Option set uri key v) (Action.ofUtf8 setting v) := by
  cases v with
  | utf8 s => exact ⟨failedToParse key,by rw [← hset]; rfl⟩
  | _ => exact ⟨_,rfl⟩

theorem ends_ite {c : Prop} [Decidable c] {uri : Uri} {r r' : Throws Uri} {a a' : Action}
    (h : M.Ends uri r a) (h' : M.Ends uri r' a') :
    M.Ends uri (if c then r else r') (if c then a else a') := by
  by_cases hc : c
  · rw [if_pos hc,if_pos hc]
    exact h
  · rw [if_neg hc,if_neg hc]
    exact h'

theorem ends_setUtf8UriOption (uri : Uri) (key : CString) (s : Bytes) :
    M.Ends uri (setUtf8UriOption M uri key (.utf8 s))
      (if key.eqCase "replicaset" ∧ (CString.ofBytes s).bytes.isEmpty then .refuse
      else .set (.utf8 key (CString.ofBytes s))) :=
  ends_ite ⟨_,rfl⟩ ⟨_,rfl⟩

theorem ends_setAuthMechanismProperties (uri : Uri) (key : CString) (properties : Doc) :
    M.Ends uri (setAuthMechanismProperties M uri key (.document properties))
      (if M.initStatic properties then .set (.mechanismProperties properties) else .refuse) := by
  rw [setAuthMechanismProperties]
  by_cases h : M.initStatic properties
  · rw [if_pos h,if_neg (not_not_intro h)]
    exact ⟨_,rfl⟩
  · rw [if_neg h,if_pos h]
    exact ⟨_,rfl⟩

theorem ends_setGssapiServiceName (uri : Uri) (key : CString) (v : BsonValue) :
    M.Ends uri (setGssapiServiceName M uri key v)
      (match v with
      | .utf8 s => .serviceName [(CString.lit "SERVICE_NAME",.utf8 (CString.ofBytes s).bytes)]
      | _ => .refuse) := by
  unfold setGssapiServiceName
  by_cases h : (M.getMechanismProperties uri).isSome
  · rw [if_pos h]
    cases v with
    | utf8 s => exact ⟨_,by rw [if_pos h]⟩
    | _ => exact ⟨_,rfl⟩
  · rw [if_neg h]
    cases v with
    | utf8 s => exact ⟨failedToParse key,by rw [if_neg h]; rfl⟩
    | _ => exact ⟨_,rfl⟩

theorem ends_applyOptionToUri (uri : Uri) (option : CString × BsonValue) :
    M.Ends uri (applyOptionToUri M uri option) (M.action option) := by
  rcases option with ⟨key,v⟩
  refine ends_ite rfl (ends_ite ⟨_,rfl⟩ (ends_ite ?int32 (ends_ite ?utf8 ?named)))
  case int32 =>
    cases v with
    | int32 n => exact ⟨_,rfl⟩
    | _ => exact ⟨_,rfl⟩
  case utf8 =>
    cases v with
    | utf8 s => exact ends_setUtf8UriOption uri key s
    | _ => exact ⟨_,rfl⟩
  case named =>
    refine ends_ite (ends_utf8 (fun _ => rfl) key v) (ends_ite (ends_utf8 (fun _ => rfl) key v)
      (ends_ite (ends_utf8 (fun _ => rfl) key v) (ends_ite (ends_utf8 (fun _ => rfl) key v)
      (ends_ite ?properties (ends_ite (ends_setGssapiServiceName uri key v)
      (ends_ite (ends_utf8 (fun _ => rfl) key v) rfl))))))
    cases v with
    | document properties => exact ends_setAuthMechanismProperties uri key properties
    | _ => exact ⟨_,rfl⟩

variable (M) in
def Named (key : CString) : Action → Prop
  | .skip | .refuse => True
  | .set (.bool k _) => k = key ∧ M.optionIsBool key ∧ isConcernOption key = false
  | .set (.int32 k _) => k = key ∧ M.optionIsInt32 key ∧ isConcernOption key = false
  | .set (.utf8 k _) => k = key ∧ M.optionIsUtf8 key ∧ isConcernOption key = false
  | .set (.username _) => key.eqCase "username"
  | .set (.password _) => key.eqCase "password"
  | .set (.authMechanism _) => key.eqCase "authmechanism"
  | .set (.authSource _) => key.eqCase "authsource"
  | .set (.compressors _) => key.eqCase "compressors"
  | .set (.mechanismProperties _) => key.eqCase "authmechanismproperties"
  | .serviceName _ => key.eqCase "gssapiservicename"

theorem named_ite {c : Prop} [Decidable c] {key : CString} {a a' : Action}
    (h : c → M.Named key a) (h' : ¬ c → M.Named key a') :
    M.Named key (if c then a else a') := by
  by_cases hc : c
  · rw [if_pos hc]
    exact h hc
  · rw [if_neg hc]
    exact h' hc

theorem named_ofUtf8 {key : CString} {setting : CString → UriSetting}
    (h : ∀ s, M.Named key (.set (setting s))) (v : BsonValue) :
    M.Named key (Action.ofUtf8 setting v) := by
  cases v with
  | utf8 s => exact h (CString.ofBytes s)
  | _ => trivial

theorem named_action (option : CString × BsonValue) : M.Named option.1 (M.action option) := by
  rcases option with ⟨key,v⟩
  refine named_ite (fun _ => trivial) fun hconcern => ?_
  rw [Bool.not_eq_true] at hconcern
  refine named_ite (fun h => ⟨rfl,h,hconcern⟩) fun _ => named_ite (fun h => ?int32) fun _ =>
    named_ite (fun h => ?utf8) fun _ => ?named
  case int32 =>
    cases v with
    | int32 n => exact ⟨rfl,h,hconcern⟩
    | _ => trivial
  case utf8 =>
    cases v with
    | utf8 s => exact named_ite (fun _ => trivial) fun _ => ⟨rfl,h,hconcern⟩
    | _ => trivial
  case named =>
    refine named_ite (fun h => named_ofUtf8 (fun _ => by exact h) v) fun _ =>
      named_ite (fun h => named_ofUtf8 (fun _ => by exact h) v) fun _ =>
      named_ite (fun h => named_ofUtf8 (fun _ => by exact h) v) fun _ =>
      named_ite (fun h => named_ofUtf8 (fun _ => by exact h) v) fun _ =>
      named_ite (fun h => ?properties) fun _ => named_ite (fun h => ?serviceName) fun _ =>
      named_ite (fun h => named_ofUtf8 (fun _ => by exact h) v) fun _ => trivial
    case properties =>
      cases v with
      | document properties => exact named_ite (fun _ => h) fun _ => trivial
      | _ => trivial
    case serviceName =>
      cases v with
      | utf8 s => exact h
      | _ => trivial

theorem settable_of_action {option : CString × BsonValue} {setting : UriSetting}
    (h : M.action option = .set setting) : M.Settable setting := by
  have hnamed := M.named_action option
  rw [h] at hnamed
  cases setting with
  | bool | int32 | utf8 =>
    obtain ⟨rfl,hsettable⟩ := hnamed
    exact hsettable
  | _ => trivial

theorem Regular.set_ok (hM : M.Regular) {uri₀ : Uri} (uri : Uri) {setting : UriSetting}
    (hset : M.Settable setting) (h : (M.set uri₀ setting).isSome) (e : Exception) :
    ∃ uri', orThrow e (M.set uri setting) = .ok uri' ∧
      M.view uri' = setting.effect (M.view uri) := by
  rw [hM.set_isSome uri hset] at h
  obtain ⟨uri',h⟩ := Option.isSome_iff_exists.mp h
  exact ⟨uri',by rw [h]; rfl,hM.view_set hset h⟩

theorem Regular.set_error (hM : M.Regular) {uri₀ : Uri} (uri : Uri) {setting : UriSetting}
    (hset : M.Settable setting) (h : ¬ (M.set uri₀ setting).isSome) (e : Exception) :
    orThrow e (M.set uri setting) = .error e := by
  rw [hM.set_isSome uri hset,Option.not_isSome_iff_eq_none] at h
  rw [h]
  rfl

/-- The loop of `php_phongo_apply_options_to_uri`. -/
theorem Regular.guarded_applyOptionToUri (hM : M.Regular) (uri₀ : Uri) :
    Guarded (applyOptionToUri M) M.view (M.allowed uri₀) M.effect := by
  constructor
  · rintro uri option ⟨hfits,hname⟩
    have hends := M.ends_applyOptionToUri uri option
    unfold Fits at hfits
    unfold effect
    cases h : M.action option with
    | skip =>
      rw [h] at hends
      exact ⟨uri,hends,rfl⟩
    | refuse =>
      rw [h] at hfits
      exact hfits.elim
    | set setting =>
      rw [h] at hends hfits
      obtain ⟨e,hends⟩ := hends
      rw [hends]
      exact hM.set_ok uri (settable_of_action h) hfits e
    | serviceName properties =>
      rw [h] at hends hfits
      obtain ⟨e,hends⟩ := hends
      have hnone : M.getMechanismProperties uri = none := hname ⟨properties,h⟩
      have hsettable : M.Settable (.mechanismProperties properties) := trivial
      obtain ⟨uri',hset,hview⟩ := hM.set_ok uri hsettable hfits e
      refine ⟨uri',by rw [hends,hnone]; exact hset,?_⟩
      rw [hview]
      simp [UriSetting.effect,view,hnone]
  · rintro uri option hallowed
    have hends := M.ends_applyOptionToUri uri option
    unfold allowed Fits IsServiceName at hallowed
    cases h : M.action option with
    | skip => simp [h] at hallowed
    | refuse =>
      rw [h] at hends
      exact hends
    | set setting =>
      rw [h] at hends
      obtain ⟨e,hends⟩ := hends
      refine ⟨e,?_⟩
      rw [hends]
      have hrefused : ¬ (M.set uri₀ setting).isSome := by simpa [h] using hallowed
      exact hM.set_error uri (settable_of_action h) hrefused e
    | serviceName properties =>
      rw [h] at hends
      obtain ⟨e,hends⟩ := hends
      refine ⟨e,?_⟩
      rw [hends]
      by_cases hnone : M.getMechanismProperties uri = none
      · rw [hnone]
        have hsettable : M.Settable (.mechanismProperties properties) := trivial
        have hrefused : ¬ (M.set uri₀ (.mechanismProperties properties)).isSome := by
          simpa [h,view,hnone] using hallowed
        exact hM.set_error uri hsettable hrefused e
      · rw [if_pos (Option.isSome_iff_ne_none.mpr hnone)]

end MongocUri

/-- No authentication source but `$external`, or none. -/
def UriView.SourceExternal (v : UriView) : Prop := v.authSource.all (·.eqCase "$external")

def UriView.NoUsername (v : UriView) : Prop := v.username.all (·.bytes.isEmpty)

instance (v : UriView) : Decidable v.NoUsername := inferInstanceAs (Decidable (_ = true))

/-- What `php_phongo_uri_finalize_auth` accepts. -/
def UriView.AuthAccepted (v : UriView) : Prop :=
  match v.authMechanism with
  | some mechanism =>
    (mechanism.eqCase "GSSAPI" ∨ mechanism.eqCase "MONGODB-X509" → v.SourceExternal) ∧
      ¬ (¬ mechanism.eqCase "MONGODB-X509" ∧ ¬ mechanism.eqCase "MONGODB-AWS" ∧ v.NoUsername) ∧
      ¬ (mechanism.eqCase "MONGODB-X509" ∧ v.password.isSome)
  | none => ¬ (v.authSource.any (fun s => s ≠ CString.lit "$external") ∧ v.NoUsername)

/-- What `php_phongo_uri_finalize_directconnection` accepts. -/
def UriView.DirectAccepted (v : UriView) : Prop :=
  v.directConnection → ¬ (ascii "mongodb+srv://").isPrefixOf v.string.bytes ∧ ¬ v.hosts > 1

namespace MongocUri
variable {Uri : Type} {M : MongocUri Uri}

theorem Regular.setExternal_view (hM : M.Regular) (uri : Uri) :
    ∃ source, M.view ((M.setAuthSource uri (CString.lit "$external")).getD uri) =
      { M.view uri with authSource := source } := by
  have hsettable : M.Settable (.authSource (CString.lit "$external")) := trivial
  cases h : M.setAuthSource uri (CString.lit "$external") with
  | none => exact ⟨(M.view uri).authSource,rfl⟩
  | some uri' => exact ⟨_,hM.view_set hsettable h⟩

variable (M) in
/-- The part of `php_phongo_uri_finalize_auth` about the authentication source. -/
def finalizeSource (mechanism : CString) (uri : Uri) : Throws Uri :=
  if mechanism.eqCase "GSSAPI" ∨ mechanism.eqCase "MONGODB-X509" then
    match M.credentialsAuthSource uri with
    | some source =>
      if source.eqCase "$external" then .ok uri
      else .error (invalidArgument
        "Failed to parse URI options: GSSAPI and X509 require \"$external\" authSource." [])
    | none => .ok ((M.setAuthSource uri (CString.lit "$external")).getD uri)
  else .ok uri

variable (M) in
def finalizeCredentials (mechanism : CString) (uri : Uri) : Throws Uri :=
  if ¬ mechanism.eqCase "MONGODB-X509" ∧ ¬ mechanism.eqCase "MONGODB-AWS" ∧
      (M.view uri).NoUsername then
    .error (invalidArgument
      "Failed to parse URI options: '%s' authentication mechanism requires username."
      [.bytes mechanism.bytes])
  else if mechanism.eqCase "MONGODB-X509" ∧ (M.view uri).password.isSome then
    .error (invalidArgument
      "Failed to parse URI options: X509 authentication mechanism does not accept a password." [])
  else .ok uri

theorem uriFinalizeAuth_eq {uri : Uri} {mechanism : CString}
    (h : M.getAuthMechanism uri = some mechanism) : uriFinalizeAuth M uri =
      finalizeSource M mechanism uri >>= finalizeCredentials M mechanism := by
  unfold uriFinalizeAuth finalizeSource
  rw [h]
  by_cases hext : mechanism.eqCase "GSSAPI" ∨ mechanism.eqCase "MONGODB-X509"
  · simp only [if_pos hext]
    cases hs : M.credentialsAuthSource uri with
    | none => rfl
    | some source =>
      by_cases hexternal : source.eqCase "$external"
      · simp only [if_pos hexternal]
        rfl
      · simp only [if_neg hexternal]
        rfl
  · simp only [if_neg hext]
    rfl

theorem Regular.finalizeSource_ok (hM : M.Regular) {mechanism : CString} {uri : Uri}
    (h : mechanism.eqCase "GSSAPI" ∨ mechanism.eqCase "MONGODB-X509" →
      (M.view uri).SourceExternal) :
    ∃ uri' source, finalizeSource M mechanism uri = .ok uri' ∧
      M.view uri' = { M.view uri with authSource := source } := by
  unfold finalizeSource
  by_cases hext : mechanism.eqCase "GSSAPI" ∨ mechanism.eqCase "MONGODB-X509"
  · rw [if_pos hext]
    cases hs : M.credentialsAuthSource uri with
    | none =>
      obtain ⟨source,hview⟩ := hM.setExternal_view uri
      exact ⟨_,source,rfl,hview⟩
    | some source =>
      have hall : (M.credentialsAuthSource uri).all (·.eqCase "$external") := h hext
      rw [hs,Option.all_some] at hall
      exact ⟨uri,_,if_pos hall,rfl⟩
  · rw [if_neg hext]
    exact ⟨uri,_,rfl,rfl⟩

theorem finalizeSource_error {mechanism : CString} {uri : Uri}
    (hext : mechanism.eqCase "GSSAPI" ∨ mechanism.eqCase "MONGODB-X509")
    (h : ¬ (M.view uri).SourceExternal) : ∃ e, finalizeSource M mechanism uri = .error e := by
  unfold finalizeSource
  rw [if_pos hext]
  cases hs : M.credentialsAuthSource uri with
  | none =>
    refine absurd ?_ h
    show (M.credentialsAuthSource uri).all (·.eqCase "$external")
    rw [hs]
    rfl
  | some source =>
    have hall : ¬ (M.credentialsAuthSource uri).all (·.eqCase "$external") := h
    rw [hs,Option.all_some] at hall
    exact ⟨_,if_neg hall⟩

/-- `php_phongo_uri_finalize_auth` changes the authentication source at most. -/
theorem Regular.uriFinalizeAuth_ok (hM : M.Regular) {uri : Uri}
    (h : (M.view uri).AuthAccepted) : ∃ uri' source, uriFinalizeAuth M uri = .ok uri' ∧
      M.view uri' = { M.view uri with authSource := source } := by
  have hmech : (M.view uri).authMechanism = M.getAuthMechanism uri := rfl
  unfold UriView.AuthAccepted at h
  rw [hmech] at h
  cases hm : M.getAuthMechanism uri with
  | none =>
    rw [hm] at h
    refine ⟨uri,_,?_,rfl⟩
    unfold uriFinalizeAuth
    rw [hm]
    exact if_neg h
  | some mechanism =>
    rw [hm] at h
    obtain ⟨hsource,husername,hpassword⟩ := h
    obtain ⟨uri',source,hok,hview⟩ := hM.finalizeSource_ok hsource
    refine ⟨uri',source,?_,hview⟩
    rw [uriFinalizeAuth_eq hm,hok]
    show finalizeCredentials M mechanism uri' = .ok uri'
    unfold finalizeCredentials
    rw [hview]
    exact (if_neg husername).trans (if_neg hpassword)

theorem Regular.uriFinalizeAuth_error (hM : M.Regular) {uri : Uri}
    (h : ¬ (M.view uri).AuthAccepted) : ∃ e, uriFinalizeAuth M uri = .error e := by
  have hmech : (M.view uri).authMechanism = M.getAuthMechanism uri := rfl
  unfold UriView.AuthAccepted at h
  rw [hmech] at h
  cases hm : M.getAuthMechanism uri with
  | none =>
    rw [hm] at h
    unfold uriFinalizeAuth
    rw [hm]
    exact ⟨_,if_pos (not_not.mp h)⟩
  | some mechanism =>
    rw [hm] at h
    rw [uriFinalizeAuth_eq hm]
    by_cases hsource : mechanism.eqCase "GSSAPI" ∨ mechanism.eqCase "MONGODB-X509" →
        (M.view uri).SourceExternal
    · obtain ⟨uri',source,hok,hview⟩ := hM.finalizeSource_ok hsource
      rw [hok]
      show ∃ e, finalizeCredentials M mechanism uri' = .error e
      unfold finalizeCredentials
      rw [hview]
      split_ifs with husername hpassword
      · exact ⟨_,rfl⟩
      · exact ⟨_,rfl⟩
      · exact absurd ⟨hsource,husername,hpassword⟩ h
    · obtain ⟨hext,hn⟩ := Classical.not_imp.mp hsource
      obtain ⟨e,he⟩ := finalizeSource_error hext hn
      exact ⟨e,by rw [he]; rfl⟩

theorem uriFinalizeDirectconnection_ok {uri : Uri} (h : (M.view uri).DirectAccepted) :
    uriFinalizeDirectconnection M uri = .ok uri := by
  unfold uriFinalizeDirectconnection
  by_cases hd : M.getOptionAsBool uri (CString.lit "directconnection") false
  · obtain ⟨hsrv,hhosts⟩ := h hd
    rw [if_neg (not_not_intro hd)]
    exact (if_neg hsrv).trans (if_neg hhosts)
  · rw [if_pos hd]

theorem uriFinalizeDirectconnection_error {uri : Uri} (h : ¬ (M.view uri).DirectAccepted) :
    ∃ e, uriFinalizeDirectconnection M uri = .error e := by
  obtain ⟨hd,hn⟩ := Classical.not_imp.mp h
  have hd : M.getOptionAsBool uri (CString.lit "directconnection") false = true := hd
  unfold uriFinalizeDirectconnection
  rw [if_neg (not_not_intro hd)]
  by_cases hsrv : (ascii "mongodb+srv://").isPrefixOf (M.getString uri).bytes
  · exact ⟨_,if_pos hsrv⟩
  · rw [if_neg hsrv]
    have hhosts : M.hosts uri > 1 := by_contra fun hhosts => hn ⟨hsrv,hhosts⟩
    exact ⟨_,if_pos hhosts⟩

end MongocUri
/-- A libmongoc whose URIs are what their getters tell, with `directConnection` for its only
option by key. -/
def MongocUri.ofView : MongocUri UriView where
  newWithError _ := .ok
    ⟨some ⟨.primary,[],noMaxStaleness⟩,some ⟨-2,none,none,0⟩,none,none,none,none,none,false,
      CString.lit "mongodb://127.0.0.1/",1⟩
  optionIsBool key := key.eqCase "directconnection"
  optionIsInt32 _ := false
  optionIsUtf8 _ := false
  setOptionAsBool v key b := some ((UriSetting.bool key b).effect v)
  setOptionAsInt32 v key n := some ((UriSetting.int32 key n).effect v)
  setOptionAsUtf8 v key s := some ((UriSetting.utf8 key s).effect v)
  setUsername v s := some ((UriSetting.username s).effect v)
  setPassword v s := some ((UriSetting.password s).effect v)
  setAuthMechanism v s := some ((UriSetting.authMechanism s).effect v)
  setAuthSource v s := some ((UriSetting.authSource s).effect v)
  setCompressors v s := some ((UriSetting.compressors s).effect v)
  setMechanismProperties v properties := some ((UriSetting.mechanismProperties properties).effect v)
  getMechanismProperties v := v.mechanismProperties
  getUsername v := v.username
  getPassword v := v.password
  getAuthMechanism v := v.authMechanism
  credentialsAuthSource v := v.authSource
  getOptionAsBool v key fallback :=
    if key.eqCase "directconnection" then v.directConnection else fallback
  getOptionAsUtf8 _ _ := none
  hasOption _ _ := false
  getTls _ := false
  getString v := v.string
  hosts v := v.hosts
  getReadConcern _ := some ⟨none⟩
  setReadConcern v _ := v
  getReadPrefs v := v.readPrefs
  setReadPrefs v rp := { v with readPrefs := some rp }
  readPrefsIsValid _ := true
  getWriteConcern v := v.writeConcern
  setWriteConcern v wc := { v with writeConcern := some wc }
  writeConcernIsValid _ := true
  iterAsBool v :=
    match v with
    | .bool b => b
    | _ => true
  initStatic _ := true

namespace MongocUri

theorem ofView_view (v : UriView) : ofView.view v = v := by
  ext1 <;> rfl

theorem ofView_set (v : UriView) (setting : UriSetting) :
    ofView.set v setting = some (setting.effect v) := by
  cases setting <;> rfl

theorem regular_ofView : ofView.Regular where
  set_isSome := fun _ _ => by rw [ofView_set,ofView_set]; rfl
  view_set := fun _ h => by
    rw [ofView_set] at h
    rw [ofView_view,ofView_view,Option.some.inj h]
  view_setReadPrefs v rp := by rw [ofView_view,ofView_view]; rfl
  view_setWriteConcern v wc := by rw [ofView_view,ofView_view]; rfl

end MongocUri

def localUri : UriView :=
  ⟨some ⟨.primary,[],noMaxStaleness⟩,some ⟨-2,none,none,0⟩,none,none,none,none,none,false,
    CString.lit "mongodb://127.0.0.1/",1⟩

end Phongo
