import Phongo.Lib.Throwing
import Phongo.Manager.FailedConstruction
import Phongo.Manager.Steps
import Phongo.Manager.UriSteps

/-! The URI a client is made from: it tells what the options say, and its options do not
contradict each other. -/
namespace Phongo
open OrderedTable Attempt MongocUri Throwing

def UriView.external (v : UriView) : Bool :=
  v.authMechanism.any fun mechanism =>
    mechanism.eqCase "GSSAPI" || mechanism.eqCase "MONGODB-X509"

/-- What `php_phongo_uri_finalize_auth` makes of the authentication source. -/
def UriView.settled (v : UriView) : UriView :=
  if v.external ∧ v.authSource.isNone then
    { v with authSource := some (CString.lit "$external") }
  else v

/-- Mechanism, source, user name and password go together. -/
structure UriView.AuthSound (v : UriView) : Prop where
  source : v.external → ∃ source, v.authSource = some source ∧ source.eqCase "$external"
  username : ∀ mechanism, v.authMechanism = some mechanism →
    ¬ mechanism.eqCase "MONGODB-X509" → ¬ mechanism.eqCase "MONGODB-AWS" → ¬ v.NoUsername
  password : ∀ mechanism, v.authMechanism = some mechanism →
    mechanism.eqCase "MONGODB-X509" → v.password = none
  default : v.authMechanism = none → v.NoUsername →
    v.authSource.all (· = CString.lit "$external")

theorem UriView.AuthAccepted.sound {v : UriView} (h : v.AuthAccepted) : v.settled.AuthSound := by
  unfold AuthAccepted at h
  cases hm : v.authMechanism with
  | none =>
    rw [hm] at h
    have hsettled : v.settled = v := by simp [settled,external,hm]
    rw [hsettled]
    refine ⟨fun hext => ?_,by simp [hm],by simp [hm],fun _ hno => ?_⟩
    · simp [external,hm] at hext
    · cases hs : v.authSource with
      | none => rfl
      | some source => simpa [hs,hno] using h
  | some mechanism =>
    rw [hm] at h
    obtain ⟨hsource,husername,hpassword⟩ := h
    have hext : v.external ↔ mechanism.eqCase "GSSAPI" ∨ mechanism.eqCase "MONGODB-X509" := by
      simp [external,hm]
    have hkept : v.settled.authMechanism = v.authMechanism ∧
        v.settled.username = v.username ∧ v.settled.password = v.password := by
      unfold settled
      split <;> exact ⟨rfl,rfl,rfl⟩
    obtain ⟨hmechanism,huser,hpass⟩ := hkept
    have hexternal : v.settled.external = v.external := by rw [external,hmechanism]; rfl
    have hno : v.settled.NoUsername ↔ v.NoUsername := by
      rw [NoUsername,huser]
      rfl
    rw [hm] at hmechanism
    refine ⟨fun he => ?_,fun m h hx ha hn => ?_,fun m h hx => ?_,fun h => ?_⟩
    · rw [hexternal] at he
      have hall : v.authSource.all (·.eqCase "$external") := hsource (hext.mp he)
      cases hs : v.authSource with
      | none => exact ⟨CString.lit "$external",by simp [settled,he,hs],by decide⟩
      | some source => exact ⟨source,by simp [settled,hs],by simpa [hs] using hall⟩
    · obtain rfl := Option.some.inj (hmechanism.symm.trans h)
      exact husername ⟨hx,ha,hno.mp hn⟩
    · obtain rfl := Option.some.inj (hmechanism.symm.trans h)
      rw [hpass,← Option.not_isSome_iff_eq_none]
      exact fun hp => hpassword ⟨hx,hp⟩
    · rw [hmechanism] at h
      cases h

namespace MongocUri
variable {Uri : Type} (M : MongocUri Uri)

/-- A URI whose options do not contradict each other. -/
structure Consistent (uri : Uri) : Prop where
  auth : (M.view uri).AuthSound
  direct : (M.view uri).DirectAccepted
  read : ∀ rp, M.getReadPrefs uri = some rp → ReadAccepted M rp
  write : ∀ wc, M.getWriteConcern uri = some wc → WriteAccepted M wc

/-- What `php_phongo_uri_finalize_tls` accepts. -/
def TlsAccepted (uri : Uri) : Prop :=
  ¬ (M.hasOption uri (CString.lit "tlsinsecure") ∧
      (M.hasOption uri (CString.lit "tlsallowinvalidcertificates") ∨
        M.hasOption uri (CString.lit "tlsallowinvalidhostnames") ∨
        M.hasOption uri (CString.lit "tlsdisableocspendpointcheck") ∨
        M.hasOption uri (CString.lit "tlsdisablecertificaterevocationcheck"))) ∧
    ¬ (M.hasOption uri (CString.lit "tlsallowinvalidcertificates") ∧
      (M.hasOption uri (CString.lit "tlsdisableocspendpointcheck") ∨
        M.hasOption uri (CString.lit "tlsdisablecertificaterevocationcheck")))

/-- What libmongoc promises of the calls that make a client's URI. -/
structure Sound : Prop where
  regular : M.Regular
  view_setReadConcern : ∀ uri rc, M.view (M.setReadConcern uri rc) = M.view uri
  /-- the source is valid UTF-8 -/
  external : ∀ uri, (M.setAuthSource uri (CString.lit "$external")).isSome
  tlsBool : ∀ key ∈ ["tlsallowinvalidhostnames","tlsallowinvalidcertificates"],
    M.optionIsBool (CString.lit key)
  tlsUtf8 : ∀ key ∈ ["tlscertificatekeyfile","tlscertificatekeyfilepassword","tlscafile"],
    M.optionIsUtf8 (CString.lit key)

/-- What the URI tells after the options: without any, what the parser made of it. -/
def optionsView (v : UriView) (options : Doc) : UriView :=
  if options.isEmpty then v
  else { (givenView M v options).settled with
    readPrefs := v.readPrefs.map (givenReadPrefs M.initStatic · options)
    writeConcern := v.writeConcern.map (givenWriteConcern · options) }

end MongocUri

section
variable {Uri : Type} {M : MongocUri Uri}

theorem finalizeSource_view (hM : M.Sound) {mechanism : CString} {uri uri' : Uri}
    (hm : M.getAuthMechanism uri = some mechanism)
    (h : finalizeSource M mechanism uri = .ok uri') : M.view uri' = (M.view uri).settled := by
  have hext : (M.view uri).external ↔
      mechanism.eqCase "GSSAPI" ∨ mechanism.eqCase "MONGODB-X509" := by
    simp [UriView.external,view,hm]
  unfold finalizeSource at h
  unfold UriView.settled
  by_cases he : mechanism.eqCase "GSSAPI" ∨ mechanism.eqCase "MONGODB-X509"
  · rw [if_pos he] at h
    cases hs : M.credentialsAuthSource uri with
    | none =>
      rw [hs] at h
      obtain ⟨uri'',hset⟩ := Option.isSome_iff_exists.mp (hM.external uri)
      have hsettable : M.Settable (.authSource (CString.lit "$external")) := trivial
      have hview := hM.regular.view_set hsettable hset
      rw [if_pos ⟨hext.mpr he,by simp [view,hs]⟩,← Except.ok.inj h,hset]
      exact hview
    | some source =>
      rw [hs] at h
      rw [if_neg (by simp [view,hs])]
      by_cases hexternal : source.eqCase "$external"
      · simp only [if_pos hexternal,Except.ok.injEq] at h
        rw [h]
      · simp [if_neg hexternal] at h
  · rw [if_neg he] at h
    rw [if_neg (fun hc => he (hext.mp hc.1)),Except.ok.inj h]

theorem finalizeCredentials_ok {mechanism : CString} {uri uri' : Uri}
    (h : finalizeCredentials M mechanism uri = .ok uri') : uri' = uri := by
  unfold finalizeCredentials at h
  split_ifs at h
  exact (Except.ok.inj h).symm

/-- `php_phongo_uri_finalize_auth` sets a source that is missing, and nothing else. -/
theorem uriFinalizeAuth_view (hM : M.Sound) {uri uri' : Uri}
    (h : uriFinalizeAuth M uri = .ok uri') : M.view uri' = (M.view uri).settled := by
  cases hm : M.getAuthMechanism uri with
  | none =>
    have hsettled : (M.view uri).settled = M.view uri := by
      simp [UriView.settled,UriView.external,view,hm]
    unfold uriFinalizeAuth at h
    simp only [hm] at h
    split_ifs at h
    rw [hsettled,Except.ok.inj h]
  | some mechanism =>
    rw [uriFinalizeAuth_eq hm] at h
    cases hsource : finalizeSource M mechanism uri with
    | error e =>
      rw [hsource] at h
      cases h
    | ok uri₁ =>
      rw [hsource] at h
      rw [finalizeCredentials_ok h]
      exact finalizeSource_view hM hm hsource

theorem uriFinalizeDirectconnection_eq {uri uri' : Uri}
    (h : uriFinalizeDirectconnection M uri = .ok uri') : uri' = uri := by
  unfold uriFinalizeDirectconnection at h
  split_ifs at h
  · exact (Except.ok.inj h).symm
  · exact (Except.ok.inj h).symm

theorem applyOptionsToUri_view (hM : M.Sound) {uri uri' : Uri} {options : Doc}
    (hne : options ≠ []) (h : applyOptionsToUri M options uri = .ok uri') :
    M.view uri' = (givenView M (M.view uri) options).settled := by
  have hguarded := hM.regular.guarded_applyOptionToUri uri
  unfold applyOptionsToUri at h
  rw [if_neg (by simpa using hne)] at h
  cases hfold : options.foldlM (applyOptionToUri M) uri with
  | error e =>
    rw [hfold] at h
    cases h
  | ok uri₁ =>
    have hview := hguarded.view_of_foldlM hfold
    rw [foldl_effect] at hview
    rw [hfold] at h
    have h : uriFinalizeAuth M uri₁ >>= uriFinalizeDirectconnection M = .ok uri' := h
    cases hauth : uriFinalizeAuth M uri₁ with
    | error e =>
      rw [hauth] at h
      cases h
    | ok uri₂ =>
      rw [hauth] at h
      rw [uriFinalizeDirectconnection_eq h,uriFinalizeAuth_view hM hauth,hview]

theorem applyRcOptionsToUri_view (hM : M.Sound) {uri uri' : Uri} {options : Doc}
    (h : applyRcOptionsToUri M options uri = .ok uri') : M.view uri' = M.view uri := by
  unfold applyRcOptionsToUri at h
  split at h
  · cases h
  · split_ifs at h
    · rw [Except.ok.inj h]
    · rename_i rc _ _
      cases hfold : options.foldlM applyRcOption rc with
      | error e =>
        rw [hfold] at h
        cases h
      | ok rc' =>
        rw [hfold] at h
        rw [← Except.ok.inj h]
        exact hM.view_setReadConcern uri rc'

theorem applyRpOptionsToUri_view (hM : M.Sound) {uri uri' : Uri} {options : Doc}
    (h : applyRpOptionsToUri M options uri = .ok uri') :
    M.view uri' = { M.view uri with
        readPrefs := (M.view uri).readPrefs.map (givenReadPrefs M.initStatic · options) } ∧
      (options ≠ [] → ∀ rp, M.getReadPrefs uri' = some rp → ReadAccepted M rp) := by
  by_cases hne : options = []
  · subst hne
    unfold applyRpOptionsToUri at h
    split at h
    · cases h
    · rename_i rp hrp
      rw [← Except.ok.inj h]
      refine ⟨?_,fun hne => absurd rfl hne⟩
      ext1 <;> first | rfl | exact (Option.map_id' ..).symm
  · obtain ⟨rp,hrp,-,haccepted,rfl⟩ := (applyRpOptionsToUri_ok_iff hne).mp h
    have hview := hM.regular.view_setReadPrefs uri (givenReadPrefs M.initStatic rp options)
    have hget : (M.view uri).readPrefs = some rp := hrp
    refine ⟨by rw [hview,hget,Option.map_some],fun _ rp' hrp' => ?_⟩
    obtain rfl := Option.some.inj ((congrArg UriView.readPrefs hview).symm.trans hrp')
    exact haccepted

theorem applyWcOptionsToUri_view (hM : M.Sound) {uri uri' : Uri} {options : Doc}
    (h : applyWcOptionsToUri M options uri = .ok uri') :
    M.view uri' = { M.view uri with
        writeConcern := (M.view uri).writeConcern.map (givenWriteConcern · options) } ∧
      (options ≠ [] → ∀ wc, M.getWriteConcern uri' = some wc → WriteAccepted M wc) := by
  by_cases hne : options = []
  · subst hne
    unfold applyWcOptionsToUri at h
    split at h
    · cases h
    · rename_i wc hwc
      rw [← Except.ok.inj h]
      refine ⟨?_,fun hne => absurd rfl hne⟩
      ext1 <;> first | rfl | exact (Option.map_id' ..).symm
  · obtain ⟨wc,hwc,-,haccepted,rfl⟩ := (applyWcOptionsToUri_ok_iff hne).mp h
    have hview := hM.regular.view_setWriteConcern uri (givenWriteConcern wc options)
    have hget : (M.view uri).writeConcern = some wc := hwc
    refine ⟨by rw [hview,hget,Option.map_some],fun _ wc' hwc' => ?_⟩
    obtain rfl := Option.some.inj ((congrArg UriView.writeConcern hview).symm.trans hwc')
    exact haccepted

theorem MongocUri.Consistent.of_view {uri uri' : Uri} (h : M.Consistent uri)
    (hview : M.view uri' = M.view uri) : M.Consistent uri' where
  auth := hview ▸ h.auth
  direct := hview ▸ h.direct
  read rp hrp := h.read rp ((congrArg UriView.readPrefs hview).symm.trans hrp)
  write wc hwc := h.write wc ((congrArg UriView.writeConcern hview).symm.trans hwc)

theorem optionsView_of_ne {v : UriView} {options : Doc} (hne : options ≠ []) :
    M.optionsView v options = { (givenView M v options).settled with
      readPrefs := v.readPrefs.map (givenReadPrefs M.initStatic · options)
      writeConcern := v.writeConcern.map (givenWriteConcern · options) } := by
  simp [optionsView,hne]

/-- The view that is checked by authentication and direct connection is the final one, up to
read preference and write concern. -/
theorem sound_of_accepted {v : UriView} {options : Doc} (hne : options ≠ [])
    (hauth : (givenView M v options).AuthAccepted)
    (hdirect : (givenView M v options).DirectAccepted) :
    (M.optionsView v options).AuthSound ∧ (M.optionsView v options).DirectAccepted := by
  have hsound := hauth.sound
  rw [optionsView_of_ne hne]
  refine ⟨⟨hsound.source,hsound.username,hsound.password,hsound.default⟩,?_⟩
  have hkept : (givenView M v options).settled.DirectAccepted := by
    unfold UriView.settled
    split <;> exact hdirect
  exact hkept

variable (M) in
/-- The steps from the parsed URI to the one with the options. -/
def applyAllOptions (options : Doc) (uri : Uri) : Throws Uri := do
  let uri ← applyOptionsToUri M options uri
  let uri ← applyRcOptionsToUri M options uri
  let uri ← applyRpOptionsToUri M options uri
  applyWcOptionsToUri M options uri

theorem applyAllOptions_consistent (hM : M.Sound) {uri uri' : Uri} {options : Doc}
    (h : applyAllOptions M options uri = .ok uri') :
    M.view uri' = M.optionsView (M.view uri) options ∧ (options ≠ [] → M.Consistent uri') := by
  obtain ⟨uri₁,h₁,h⟩ := bind_eq_ok.mp h
  obtain ⟨uri₂,h₂,h⟩ := bind_eq_ok.mp h
  obtain ⟨uri₃,h₃,h₄⟩ := bind_eq_ok.mp h
  have hrc := applyRcOptionsToUri_view hM h₂
  obtain ⟨hrp,hread⟩ := applyRpOptionsToUri_view hM h₃
  obtain ⟨hwc,hwrite⟩ := applyWcOptionsToUri_view hM h₄
  by_cases hne : options = []
  · subst hne
    have hstart : M.view uri₁ = M.view uri := by
      rw [← Except.ok.inj h₁]
    have hview : M.view uri' = M.view uri := by
      rw [hwc,hrp,hrc,hstart]
      ext1 <;> first | rfl | exact Option.map_id' ..
    exact ⟨hview,fun hne => absurd rfl hne⟩
  · have hstart := applyOptionsToUri_view hM hne h₁
    obtain ⟨-,hauth,hdirect⟩ := applyOptionsToUri_passes hM.regular hne h₁
    have hview : M.view uri' = M.optionsView (M.view uri) options := by
      have hkept : (givenView M (M.view uri) options).settled.readPrefs = (M.view uri).readPrefs ∧
          (givenView M (M.view uri) options).settled.writeConcern =
            (M.view uri).writeConcern := by
        unfold UriView.settled
        split <;> exact ⟨rfl,rfl⟩
      rw [hwc,hrp,hrc,hstart,hkept.1,hkept.2,optionsView_of_ne hne]
    obtain ⟨hsound,hdirect⟩ := sound_of_accepted hne hauth hdirect
    refine ⟨hview,fun _ => ⟨hview ▸ hsound,hview ▸ hdirect,fun rp h => ?_,hwrite hne⟩⟩
    exact hread hne rp ((congrArg UriView.readPrefs hwc).symm.trans h)

theorem uriFinalizeTls_ok {uri uri' : Uri} (h : uriFinalizeTls M uri = .ok uri') :
    uri' = uri ∧ M.TlsAccepted uri := by
  unfold uriFinalizeTls at h
  simp only [ite_error_eq_ok_iff] at h
  obtain ⟨hinsecure,hcertificates,h⟩ := h
  exact ⟨(Except.ok.inj h).symm,hinsecure,hcertificates⟩

end

section
variable {Uri : Type} {E : Outside Uri}

/-- The setter of a driver option does not change what the URI tells. -/
def Quiet (E : Outside Uri) (set : SetTlsOption Uri) (o : TlsDriverOption) : Prop :=
  ∀ {z uri uri' eg eg'}, set o z uri eg = (some uri',eg') →
    E.mongocUri.view uri' = E.mongocUri.view uri

theorem quiet_setTlsBool (hM : E.mongocUri.Sound) {o : TlsDriverOption}
    (h : o.uriOption ∈ ["tlsallowinvalidhostnames","tlsallowinvalidcertificates"]) :
    Quiet E E.setTlsBool o := by
  intro z uri uri' eg eg' hset
  have hsettable : E.mongocUri.Settable (.bool (CString.lit o.uriOption) z.isTrue) := by
    refine ⟨hM.tlsBool o.uriOption h,?_⟩
    simp only [List.mem_cons,List.not_mem_nil,or_false] at h
    rcases h with h | h <;> rw [h] <;> decide
  have hother : (CString.lit o.uriOption).eqCase "directconnection" = false := by
    simp only [List.mem_cons,List.not_mem_nil,or_false] at h
    rcases h with h | h <;> rw [h] <;> decide
  rw [hM.regular.view_set hsettable (orThrow_eq_some.mp hset).1]
  simp [UriSetting.effect,hother]

theorem quiet_setTlsString (hM : E.mongocUri.Sound) {o : TlsDriverOption}
    (h : o.uriOption ∈
      ["tlscertificatekeyfile","tlscertificatekeyfilepassword","tlscafile"]) :
    Quiet E E.setTlsString o := by
  intro z uri uri' eg eg' hset
  obtain ⟨value,eg₁,-,hset⟩ := bind_eq_some.mp hset
  have hsettable : E.mongocUri.Settable
      (.utf8 (CString.lit o.uriOption) (CString.ofBytes value)) := by
    refine ⟨hM.tlsUtf8 o.uriOption h,?_⟩
    simp only [List.mem_cons,List.not_mem_nil,or_false] at h
    rcases h with h | h | h <;> rw [h] <;> decide
  exact hM.regular.view_set hsettable (orThrow_eq_some.mp hset).1

theorem applyFirst_view {set : SetTlsOption Uri} {options : Options} {os : List TlsDriverOption}
    (hset : ∀ o ∈ os, Quiet E set o) {uri uri' : Uri} {eg eg' : Pending}
    (h : E.applyFirst set options os uri eg = (some uri',eg')) :
    E.mongocUri.view uri' = E.mongocUri.view uri := by
  induction os with
  | nil =>
    rw [Outside.applyFirst,pure_apply] at h
    rw [Option.some.inj (Prod.ext_iff.mp h).1]
  | cons o os ih =>
    rw [Outside.applyFirst] at h
    cases hfetch : options.fetch o.key with
    | none =>
      simp only [hfetch] at h
      exact ih (fun o ho => hset o (List.mem_cons_of_mem _ ho)) h
    | some z =>
      simp only [hfetch] at h
      obtain ⟨uri₁,eg₁,h₁,h⟩ := bind_eq_some.mp h
      obtain ⟨_,eg₂,-,h⟩ := bind_eq_some.mp h
      rw [pure_apply] at h
      rw [← Option.some.inj (Prod.ext_iff.mp h).1]
      exact hset o List.mem_cons_self h₁

theorem applyDriverOptionsToUri_view (hM : E.mongocUri.Sound) {driverOptions : Option Options}
    {uri uri' : Uri} {eg eg' : Pending}
    (h : E.applyDriverOptionsToUri driverOptions uri eg = (some uri',eg')) :
    E.mongocUri.view uri' = E.mongocUri.view uri := by
  cases driverOptions with
  | none =>
    rw [Outside.applyDriverOptionsToUri,pure_apply] at h
    rw [Option.some.inj (Prod.ext_iff.mp h).1]
  | some options =>
    obtain ⟨uri₁,_,h₁,h⟩ := bind_eq_some.mp h
    obtain ⟨uri₂,_,h₂,h⟩ := bind_eq_some.mp h
    obtain ⟨uri₃,_,h₃,h⟩ := bind_eq_some.mp h
    obtain ⟨uri₄,_,h₄,h₅⟩ := bind_eq_some.mp h
    have hbool : ∀ {o : TlsDriverOption}, o.uriOption ∈
        ["tlsallowinvalidhostnames","tlsallowinvalidcertificates"] → Quiet E E.setTlsBool o :=
      quiet_setTlsBool hM
    have hstring : ∀ {o : TlsDriverOption}, o.uriOption ∈
        ["tlscertificatekeyfile","tlscertificatekeyfilepassword","tlscafile"] →
          Quiet E E.setTlsString o := quiet_setTlsString hM
    calc E.mongocUri.view uri' = E.mongocUri.view uri₄ :=
          applyFirst_view (by simp [hstring]) h₅
      _ = E.mongocUri.view uri₃ := applyFirst_view (by simp [hstring]) h₄
      _ = E.mongocUri.view uri₂ := applyFirst_view (by simp [hstring]) h₃
      _ = E.mongocUri.view uri₁ := applyFirst_view (by simp [hbool]) h₂
      _ = E.mongocUri.view uri := applyFirst_view (by simp [hbool]) h₁

/-- TLS options that go together, in a build with TLS; without it, a URI that needs none. -/
def Outside.Secured (E : Outside Uri) (uri : Uri) : Prop :=
  (E.ssl.isSome → E.mongocUri.TlsAccepted uri) ∧
    (E.ssl = none → E.mongocUri.getTls uri = false)

theorem applyTls_view (hM : E.mongocUri.Sound) {driverOptions : Option Options} {uri uri' : Uri}
    {sslOpt : Option SslOpt} {eg eg' : Pending}
    (h : E.applyTls driverOptions uri eg = (some (uri',sslOpt),eg')) :
    E.mongocUri.view uri' = E.mongocUri.view uri ∧ E.Secured uri' := by
  unfold Outside.applyTls at h
  cases hssl : E.ssl with
  | some library =>
    simp only [hssl] at h
    obtain ⟨uri₁,_,h₁,h⟩ := bind_eq_some.mp h
    obtain ⟨sslOpt',_,-,h⟩ := bind_eq_some.mp h
    obtain ⟨_,_,-,h⟩ := bind_eq_some.mp h
    obtain ⟨uri₂,_,h₂,h⟩ := bind_eq_some.mp h
    obtain ⟨hsame,htls⟩ := uriFinalizeTls_ok (ofExcept_eq_some.mp h₂).1
    rw [pure_apply] at h
    obtain ⟨rfl,-⟩ := Prod.ext_iff.mp (Option.some.inj (Prod.ext_iff.mp h).1)
    obtain rfl : uri₂ = uri₁ := hsame
    exact ⟨applyDriverOptionsToUri_view hM h₁,fun _ => htls,fun hnone => by simp [hssl] at hnone⟩
  | none =>
    simp only [hssl] at h
    by_cases htls : E.mongocUri.getTls uri = true
    · simp [htls,throw_apply] at h
    · simp only [htls,Bool.false_eq_true,if_false] at h
      rw [pure_apply] at h
      obtain ⟨rfl,-⟩ := Prod.ext_iff.mp (Option.some.inj (Prod.ext_iff.mp h).1)
      exact ⟨rfl,fun hsome => by simp [hssl] at hsome,fun _ => by simpa using htls⟩

/-- The URI that `phongo_manager_init` has for its client. What the parser accepts is checked
again only where there are options to apply. -/
structure Outside.Prepared (E : Outside Uri) (a : ManagerArgs) (uri : Uri) : Prop where
  told : ∃ options uri₀, E.encodeOptions a.options [] = (some options,[]) ∧
    E.mongocUri.newWithError a.uriString = .ok uri₀ ∧
    E.mongocUri.view uri = E.mongocUri.optionsView (E.mongocUri.view uri₀) options ∧
    (options ≠ [] → E.mongocUri.Consistent uri)
  secured : E.Secured uri

theorem makeUri_ok {M : MongocUri Uri} {uriString : CString} {uri : Uri}
    (h : makeUri M uriString = .ok uri) : M.newWithError uriString = .ok uri := by
  unfold makeUri at h
  split at h
  · rename_i uri' hnew
    rw [hnew,Except.ok.inj h]
  · cases h

theorem prepareUri_prepared (hM : E.mongocUri.Sound) {a : ManagerArgs} {uri : Uri}
    {sslOpt : Option SslOpt} {eg : Pending} (h : E.prepareUri a [] = (some (uri,sslOpt),eg)) :
    E.Prepared a uri := by
  obtain ⟨options,eg₁,hoptions,h⟩ := bind_eq_some.mp h
  obtain ⟨_,eg₂,hcheck,h⟩ := bind_eq_some.mp h
  obtain ⟨rfl,rfl⟩ := check_eq_some.mp hcheck
  obtain ⟨uri₀,_,hmake,h⟩ := bind_eq_some.mp h
  obtain ⟨uri₁,_,h₁,h⟩ := bind_eq_some.mp h
  obtain ⟨uri₂,_,h₂,h⟩ := bind_eq_some.mp h
  obtain ⟨uri₃,_,h₃,h⟩ := bind_eq_some.mp h
  obtain ⟨uri₄,_,h₄,h⟩ := bind_eq_some.mp h
  have hnew := makeUri_ok (ofExcept_eq_some.mp hmake).1
  have hall : applyAllOptions E.mongocUri options uri₀ = .ok uri₄ :=
    bind_eq_ok.mpr ⟨uri₁,(ofExcept_eq_some.mp h₁).1,bind_eq_ok.mpr ⟨uri₂,(ofExcept_eq_some.mp h₂).1,
      bind_eq_ok.mpr ⟨uri₃,(ofExcept_eq_some.mp h₃).1,(ofExcept_eq_some.mp h₄).1⟩⟩⟩
  obtain ⟨hview,hconsistent⟩ := applyAllOptions_consistent hM hall
  obtain ⟨hsame,hsecured⟩ := applyTls_view hM h
  exact ⟨⟨options,uri₀,hoptions,hnew,hsame.trans hview,fun hne => (hconsistent hne).of_view hsame⟩,
    hsecured⟩

theorem managerInit_clients (s : Process) (m : Manager) (a : ManagerArgs) :
    (E.managerInit s m a).process.clients = s.clients ∨
      (E.managerInit s m a).process.clients.length = s.clients.length + 1 ∧
        ∃ uri sslOpt, E.prepareUri a [] = (some (uri,sslOpt),[]) ∧ E.clientNewFromUri uri := by
  unfold Outside.managerInit
  rcases hhash : E.makeClientHash s a [] with ⟨_ | hash,eg⟩
  · exact .inl rfl
  · obtain ⟨rfl,-⟩ := makeClientHash_eq_some E hhash
    dsimp only
    split
    · exact .inl rfl
    · split
      · exact .inl rfl
      · rename_i uri sslOpt eg hprepare
        obtain rfl := prepareUri_eq_some E hprepare
        unfold Outside.makeMongoClient
        by_cases hnew : E.clientNewFromUri uri
        · refine .inr ⟨?_,uri,sslOpt,hprepare,hnew⟩
          simp only [hnew,if_true]
          unfold Outside.finishClient
          split
          · simp
          · dsimp only
            split
            · simp
            · simp [Process.clients_clientRegister]
        · simp [hnew]

theorem clients_freeManager (s : Process) (m : Manager) :
    (s.freeManager m).clients = s.clients := by
  unfold Process.freeManager Process.clientUnregister Process.pclientDestroy
  split_ifs
  · rfl
  · dsimp only
    split
    · split_ifs <;> rfl
    · rfl
  · rfl

theorem clients_register (r : Initialised) : r.register.1.clients = r.process.clients := by
  unfold Initialised.register
  split_ifs
  · exact clients_freeManager r.process r.manager
  · exact clients_freeManager r.process r.manager
  · rfl

/-- A Manager's constructor makes one client at most, and from a URI that tells what the options
say and in which, where there are any, no option contradicts another. -/
theorem client_uriConsistent (hM : E.mongocUri.Sound) (s : Process) (a : ManagerArgs) :
    (E.construct s a).1.clients = s.clients ∨
      (E.construct s a).1.clients.length = s.clients.length + 1 ∧
        ∃ uri sslOpt, E.prepareUri a [] = (some (uri,sslOpt),[]) ∧ E.clientNewFromUri uri ∧
          E.Prepared a uri := by
  have hclients : (E.construct s a).1.clients =
      (E.managerInit s.createManager.2 s.createManager.1 a).process.clients :=
    clients_register _
  have hcreated : s.createManager.2.clients = s.clients := rfl
  rw [hclients]
  rcases managerInit_clients (E:=E) s.createManager.2 s.createManager.1 a with
    hsame | ⟨hlength,uri,sslOpt,hprepare,hnew⟩
  · exact .inl (hsame.trans hcreated)
  · exact .inr ⟨by rw [hlength,hcreated],uri,sslOpt,hprepare,hnew,prepareUri_prepared hM hprepare⟩

end

def MongocUri.ofTlsView : MongocUri UriView :=
  { MongocUri.ofView with
    newWithError _ := .ok localUri
    optionIsBool key := key.eqCase "directconnection" || key.eqCase "tlsallowinvalidhostnames" ||
      key.eqCase "tlsallowinvalidcertificates"
    optionIsUtf8 key := key.eqCase "tlscertificatekeyfile" ||
      key.eqCase "tlscertificatekeyfilepassword" || key.eqCase "tlscafile"
    getTls _ := true }

namespace MongocUri

theorem ofTlsView_view (v : UriView) : ofTlsView.view v = v := by
  ext1 <;> rfl

theorem ofTlsView_set (v : UriView) (setting : UriSetting) :
    ofTlsView.set v setting = some (setting.effect v) := by
  cases setting <;> rfl

theorem sound_ofTlsView : ofTlsView.Sound where
  regular :=
    { set_isSome := fun _ _ => by rw [ofTlsView_set,ofTlsView_set]; rfl
      view_set := fun _ h => by
        rw [ofTlsView_set] at h
        rw [ofTlsView_view,ofTlsView_view,Option.some.inj h]
      view_setReadPrefs := fun v rp => by rw [ofTlsView_view,ofTlsView_view]; rfl
      view_setWriteConcern := fun v wc => by rw [ofTlsView_view,ofTlsView_view]; rfl }
  view_setReadConcern := fun _ _ => rfl
  external := fun _ => rfl
  tlsBool := by decide
  tlsUtf8 := by decide

end MongocUri

def Outside.ofTlsView : Outside UriView where
  mongocUri := MongocUri.ofTlsView
  libbson := Libbson.ascii
  userland := Userland.keeping ClassEntry.person
  phpVersion := CString.lit "7.4.0"
  driverVersion := CString.lit "1.11.0-dev"
  ssl := some .openSsl
  clientSideEncryption := true
  convertToString _ := ([],[])
  deprecated _ := []
  varSerialize uri _ _ := (uri.bytes,[])
  clientNewFromUri _ := true
  enableAutoEncryption _ opts :=
    if opts.kmsProviders.isSome then none
    else some (invalidArgument "KMS providers option required" [])
  kmsProvidersRequired _ opts h := by simp [h]
  setServerApi _ _ := none
  setApmCallbacks _ := true

/-- `['username' => 'alice', 'authMechanism' => 'GSSAPI']` with a file of certificates. -/
def ManagerArgs.gssapi : ManagerArgs :=
  ⟨CString.lit "mongodb://127.0.0.1/",
    some [(.str (ascii "username"),.string (ascii "alice")),
      (.str (ascii "authMechanism"),.string (ascii "GSSAPI"))],
    some [(.str (ascii "ca_file"),.string (ascii "/ca.pem"))]⟩

theorem client_uriConsistent_gssapi :
    ((Outside.ofTlsView.construct (Process.start 7) .gssapi).1.clients = [] ∨
      (Outside.ofTlsView.construct (Process.start 7) .gssapi).1.clients.length = 1 ∧
        ∃ uri sslOpt, Outside.ofTlsView.prepareUri .gssapi [] = (some (uri,sslOpt),[]) ∧
          Outside.ofTlsView.clientNewFromUri uri ∧ Outside.ofTlsView.Prepared .gssapi uri) :=
  client_uriConsistent MongocUri.sound_ofTlsView (Process.start 7) .gssapi

example : ((Outside.ofTlsView.prepareUri .gssapi []).1.bind fun r => r.1.authSource) =
    some (CString.lit "$external") := by decide +kernel

end Phongo
