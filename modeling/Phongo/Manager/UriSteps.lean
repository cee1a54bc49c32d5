import Phongo.Manager.UriEffects
import Phongo.Manager.UriConcerns

/-! The steps of Manager construction that apply URI options: when each stops, and what the URI
tells after all of them. -/
namespace Phongo
open Loop MongocUri

section
variable {Uri : Type} (M : MongocUri Uri)

def applyUriOptions (options : Doc) (uri : Uri) : Throws Uri := do
  let uri ← applyOptionsToUri M options uri
  let uri ← applyRpOptionsToUri M options uri
  applyWcOptionsToUri M options uri

/-- What an option sets that is about one part of the URI. -/
def settingOption {β : Type} (part : UriSetting → Option β) (option : CString × BsonValue) :
    Option β :=
  match M.action option with
  | .set setting => part setting
  | _ => none

def UriSetting.newUsername : UriSetting → Option (Option CString)
  | .username s => some (some s)
  | _ => none

def UriSetting.newPassword : UriSetting → Option (Option CString)
  | .password s => some (some s)
  | _ => none

def UriSetting.newAuthMechanism : UriSetting → Option (Option CString)
  | .authMechanism s => some (some s)
  | _ => none

def UriSetting.newAuthSource : UriSetting → Option (Option CString)
  | .authSource s => some (some s)
  | _ => none

def UriSetting.newDirectConnection : UriSetting → Option Bool
  | .bool key b => if key.eqCase "directconnection" then some b else none
  | _ => none

def UriSetting.newMechanismProperties : UriSetting → Option Doc
  | .mechanismProperties properties => some properties
  | _ => none

def serviceNameOption (option : CString × BsonValue) : Option Doc :=
  match M.action option with
  | .serviceName properties => some properties
  | _ => none

/-- Properties set as such count before a service name, which counts after those there. -/
def propertiesEffect (properties : Option Doc) (option : CString × BsonValue) : Option Doc :=
  (settingOption M UriSetting.newMechanismProperties option).or
    (properties.or (serviceNameOption M option))

def givenView (v : UriView) (options : Doc) : UriView where
  readPrefs := v.readPrefs
  writeConcern := v.writeConcern
  mechanismProperties := options.foldl (propertiesEffect M) v.mechanismProperties
  username := given (settingOption M UriSetting.newUsername) v.username options
  password := given (settingOption M UriSetting.newPassword) v.password options
  authMechanism := given (settingOption M UriSetting.newAuthMechanism) v.authMechanism options
  authSource := given (settingOption M UriSetting.newAuthSource) v.authSource options
  directConnection :=
    given (settingOption M UriSetting.newDirectConnection) v.directConnection options
  string := v.string
  hosts := v.hosts

def ReadAccepted (rp : ReadPrefs) : Prop :=
  ¬ (rp.mode = .primary ∧ ¬ rp.tags.isEmpty) ∧
    ¬ (rp.mode = .primary ∧ rp.maxStalenessSeconds ≠ noMaxStaleness) ∧ M.readPrefsIsValid rp

def WriteAccepted (wc : WriteConcern) : Prop :=
  ¬ (wc.journal = some true ∧ (wc.w = wUnacknowledged ∨ wc.w = wErrorsIgnored)) ∧
    M.writeConcernIsValid wc

end

section
variable {Uri : Type} {M : MongocUri Uri}

theorem effect_eq_givenView (v : UriView) (option : CString × BsonValue) :
    M.effect v option = givenView M v [option] := by
  cases h : M.action option with
  | skip | refuse | serviceName properties =>
    simp [MongocUri.effect,givenView,given,settingOption,propertiesEffect,serviceNameOption,h]
  | set setting =>
    cases setting with
    | bool key b =>
      by_cases hkey : key.eqCase "directconnection"
      · simp [MongocUri.effect,givenView,given,settingOption,propertiesEffect,serviceNameOption,h,
          UriSetting.effect,UriSetting.newDirectConnection,UriSetting.newMechanismProperties,
          UriSetting.newUsername,UriSetting.newPassword,UriSetting.newAuthMechanism,
          UriSetting.newAuthSource,hkey]
      · simp [MongocUri.effect,givenView,given,settingOption,propertiesEffect,serviceNameOption,h,
          UriSetting.effect,UriSetting.newDirectConnection,UriSetting.newMechanismProperties,
          UriSetting.newUsername,UriSetting.newPassword,UriSetting.newAuthMechanism,
          UriSetting.newAuthSource,hkey]
    | _ =>
      simp [MongocUri.effect,givenView,given,settingOption,propertiesEffect,serviceNameOption,h,
        UriSetting.effect,UriSetting.newDirectConnection,UriSetting.newMechanismProperties,
        UriSetting.newUsername,UriSetting.newPassword,UriSetting.newAuthMechanism,
        UriSetting.newAuthSource]

theorem foldl_effect (v : UriView) (options : Doc) :
    options.foldl M.effect v = givenView M v options := by
  induction options generalizing v with
  | nil => rfl
  | cons option options ih =>
    rw [List.foldl_cons,ih,effect_eq_givenView]
    rfl

theorem applyOptionsToUri_ok (hM : M.Regular) {uri : Uri} {options : Doc} (hne : options ≠ [])
    (hpasses : Passes (M.allowed uri) M.effect (M.view uri) options)
    (hauth : (givenView M (M.view uri) options).AuthAccepted)
    (hdirect : (givenView M (M.view uri) options).DirectAccepted) :
    ∃ uri' source, applyOptionsToUri M options uri = .ok uri' ∧
      M.view uri' = { givenView M (M.view uri) options with authSource := source } := by
  have hguarded := hM.guarded_applyOptionToUri uri
  obtain ⟨uri₁,hfold⟩ := hguarded.foldlM_ok_iff.mpr hpasses
  have hview := hguarded.view_of_foldlM hfold
  rw [foldl_effect] at hview
  obtain ⟨uri₂,source,hfinal,hview'⟩ := hM.uriFinalizeAuth_ok (hview ▸ hauth)
  have hdirect' : (M.view uri₂).DirectAccepted := by
    rw [hview',hview]
    exact hdirect
  refine ⟨uri₂,source,?_,by rw [hview',hview]⟩
  unfold applyOptionsToUri
  rw [if_neg (by simpa using hne),hfold]
  show uriFinalizeAuth M uri₁ >>= uriFinalizeDirectconnection M = _
  rw [hfinal]
  exact uriFinalizeDirectconnection_ok hdirect'

theorem applyOptionsToUri_passes (hM : M.Regular) {uri uri' : Uri} {options : Doc}
    (hne : options ≠ []) (h : applyOptionsToUri M options uri = .ok uri') :
    Passes (M.allowed uri) M.effect (M.view uri) options ∧
      (givenView M (M.view uri) options).AuthAccepted ∧
      (givenView M (M.view uri) options).DirectAccepted := by
  have hguarded := hM.guarded_applyOptionToUri uri
  unfold applyOptionsToUri at h
  rw [if_neg (by simpa using hne)] at h
  cases hfold : options.foldlM (applyOptionToUri M) uri with
  | error e =>
    rw [hfold] at h
    cases h
  | ok uri₁ =>
    have hview := hguarded.view_of_foldlM hfold
    rw [foldl_effect] at hview
    rw [hfold] at h
    have h : uriFinalizeAuth M uri₁ >>= uriFinalizeDirectconnection M = .ok uri' := h
    refine ⟨hguarded.foldlM_ok_iff.mp ⟨uri₁,hfold⟩,?_⟩
    rw [← hview]
    by_cases hauth : (M.view uri₁).AuthAccepted
    · obtain ⟨uri₂,source,hfinal,hview'⟩ := hM.uriFinalizeAuth_ok hauth
      refine ⟨hauth,?_⟩
      by_contra hdirect
      have hdirect' : ¬ (M.view uri₂).DirectAccepted := by
        rw [hview']
        exact hdirect
      obtain ⟨e,he⟩ := uriFinalizeDirectconnection_error hdirect'
      rw [hfinal] at h
      cases he.symm.trans h
    · obtain ⟨e,he⟩ := hM.uriFinalizeAuth_error hauth
      rw [he] at h
      cases h

theorem ite_error_eq_ok_iff {c : Prop} [Decidable c] {e : Exception} {r : Throws Uri}
    {uri : Uri} : (if c then .error e else r) = .ok uri ↔ ¬ c ∧ r = .ok uri := by
  by_cases hc : c
  · simp [hc]
  · simp [hc]

theorem readAccepted_iff (uri uri' : Uri) (rp : ReadPrefs) :
    (if rp.mode = .primary ∧ ¬ rp.tags.isEmpty then
      .error (invalidArgument "Primary read preference mode conflicts with tags" [])
    else if rp.mode = .primary ∧ rp.maxStalenessSeconds ≠ noMaxStaleness then
      .error primaryConflictsWithMaxStaleness
    else if ¬ M.readPrefsIsValid rp then
      .error (invalidArgument "Read preference is not valid" [])
    else .ok (M.setReadPrefs uri rp) : Throws Uri) = .ok uri' ↔
      ReadAccepted M rp ∧ uri' = M.setReadPrefs uri rp := by
  rw [ite_error_eq_ok_iff,ite_error_eq_ok_iff,ite_error_eq_ok_iff,not_not,Except.ok.injEq,
    eq_comm (a := M.setReadPrefs uri rp)]
  unfold ReadAccepted
  tauto

theorem writeAccepted_iff (uri uri' : Uri) (wc : WriteConcern) :
    (if wc.journal = some true ∧ (wc.w = wUnacknowledged ∨ wc.w = wErrorsIgnored) then
      .error (invalidArgument "Journal conflicts with w value: %d" [.num wc.w.toInt])
    else if ¬ M.writeConcernIsValid wc then
      .error (invalidArgument "Write concern is not valid" [])
    else .ok (M.setWriteConcern uri wc) : Throws Uri) = .ok uri' ↔
      WriteAccepted M wc ∧ uri' = M.setWriteConcern uri wc := by
  rw [ite_error_eq_ok_iff,ite_error_eq_ok_iff,not_not,Except.ok.injEq,
    eq_comm (a := M.setWriteConcern uri wc)]
  unfold WriteAccepted
  tauto

theorem applyRpOptionsToUri_ok_iff {uri uri' : Uri} {options : Doc} (hne : options ≠ []) :
    applyRpOptionsToUri M options uri = .ok uri' ↔ ∃ rp, M.getReadPrefs uri = some rp ∧
      Passes (readAllowed M.initStatic) (readEffect M.initStatic) rp options ∧
      ReadAccepted M (givenReadPrefs M.initStatic rp options) ∧
      uri' = M.setReadPrefs uri (givenReadPrefs M.initStatic rp options) := by
  have hguarded := guarded_applyRpOption M
  unfold applyRpOptionsToUri
  cases hrp : M.getReadPrefs uri with
  | none => simp
  | some rp =>
    simp only [if_neg (show ¬ options.isEmpty = true by simpa using hne),Option.some.injEq,
      exists_eq_left']
    cases hfold : options.foldlM (applyRpOption M) rp with
    | error e =>
      have hpasses : ¬ Passes (readAllowed M.initStatic) (readEffect M.initStatic) rp options :=
        fun hp => by
          obtain ⟨rp',hok⟩ := hguarded.foldlM_ok_iff.mpr hp
          cases hfold.symm.trans hok
      exact ⟨fun h => (by cases h),fun h => absurd h.1 hpasses⟩
    | ok rp' =>
      have hpasses := hguarded.foldlM_ok_iff.mp ⟨rp',hfold⟩
      have hview : rp' = givenReadPrefs M.initStatic rp options := by
        rw [← foldl_readEffect]
        exact hguarded.view_of_foldlM hfold
      subst hview
      exact (readAccepted_iff uri uri' (givenReadPrefs M.initStatic rp options)).trans
        ⟨fun h => ⟨hpasses,h⟩,And.right⟩

theorem applyWcOptionsToUri_ok_iff {uri uri' : Uri} {options : Doc} (hne : options ≠ []) :
    applyWcOptionsToUri M options uri = .ok uri' ↔ ∃ wc, M.getWriteConcern uri = some wc ∧
      Passes writeAllowed writeEffect (wc,false) options ∧
      WriteAccepted M (givenWriteConcern wc options) ∧
      uri' = M.setWriteConcern uri (givenWriteConcern wc options) := by
  have hguarded := guarded_applyWcOption
  unfold applyWcOptionsToUri
  cases hwc : M.getWriteConcern uri with
  | none => simp
  | some wc =>
    simp only [if_neg (show ¬ options.isEmpty = true by simpa using hne),Option.some.injEq,
      exists_eq_left']
    cases hfold : options.foldlM applyWcOption (wc,false) with
    | error e =>
      have hpasses : ¬ Passes writeAllowed writeEffect (wc,false) options := fun hp => by
        obtain ⟨state,hok⟩ := hguarded.foldlM_ok_iff.mpr hp
        cases hfold.symm.trans hok
      exact ⟨fun h => (by cases h),fun h => absurd h.1 hpasses⟩
    | ok state =>
      have hpasses := hguarded.foldlM_ok_iff.mp ⟨state,hfold⟩
      have hview : state = options.foldl writeEffect (wc,false) := hguarded.view_of_foldlM hfold
      rw [foldl_writeEffect] at hview
      subst hview
      exact (writeAccepted_iff uri uri' (givenWriteConcern wc options)).trans
        ⟨fun h => ⟨hpasses,h⟩,And.right⟩

variable (M) in
/-- No step of the three stops at these options. -/
structure Passing (uri : Uri) (options : Doc) : Prop where
  passes : Passes (M.allowed uri) M.effect (M.view uri) options
  auth : (givenView M (M.view uri) options).AuthAccepted
  direct : (givenView M (M.view uri) options).DirectAccepted
  read : ∃ rp, M.getReadPrefs uri = some rp ∧
    Passes (readAllowed M.initStatic) (readEffect M.initStatic) rp options ∧
    ReadAccepted M (givenReadPrefs M.initStatic rp options)
  write : ∃ wc, M.getWriteConcern uri = some wc ∧
    Passes writeAllowed writeEffect (wc,false) options ∧
    WriteAccepted M (givenWriteConcern wc options)

variable (M) in
def Shows (uri uri' : Uri) (options : Doc) : Prop :=
  M.getReadPrefs uri' =
      (M.getReadPrefs uri).map (givenReadPrefs M.initStatic · options) ∧
    M.getWriteConcern uri' = (M.getWriteConcern uri).map (givenWriteConcern · options) ∧
    M.getMechanismProperties uri' =
      options.foldl (propertiesEffect M) (M.getMechanismProperties uri)

theorem applyUriOptions_ok (hM : M.Regular) {uri : Uri} {options : Doc} (hne : options ≠ [])
    (h : Passing M uri options) :
    ∃ uri', applyUriOptions M options uri = .ok uri' ∧ Shows M uri uri' options := by
  obtain ⟨rp,hrp,hreads,hread⟩ := h.read
  obtain ⟨wc,hwc,hwrites,hwrite⟩ := h.write
  obtain ⟨uri₁,source,hok,hview⟩ := applyOptionsToUri_ok hM hne h.passes h.auth h.direct
  have hrp₁ : M.getReadPrefs uri₁ = some rp := (congrArg UriView.readPrefs hview).trans hrp
  have hok₂ := (applyRpOptionsToUri_ok_iff hne).mpr ⟨rp,hrp₁,hreads,hread,rfl⟩
  have hview₂ := hM.view_setReadPrefs uri₁ (givenReadPrefs M.initStatic rp options)
  have hwc₂ : M.getWriteConcern (M.setReadPrefs uri₁ (givenReadPrefs M.initStatic rp options)) =
      some wc :=
    (congrArg UriView.writeConcern hview₂).trans ((congrArg UriView.writeConcern hview).trans hwc)
  have hok₃ := (applyWcOptionsToUri_ok_iff hne).mpr ⟨wc,hwc₂,hwrites,hwrite,rfl⟩
  have hview₃ := hM.view_setWriteConcern
    (M.setReadPrefs uri₁ (givenReadPrefs M.initStatic rp options)) (givenWriteConcern wc options)
  have hsteps : applyUriOptions M options uri = .ok (M.setWriteConcern
      (M.setReadPrefs uri₁ (givenReadPrefs M.initStatic rp options))
      (givenWriteConcern wc options)) := by
    unfold applyUriOptions
    rw [hok]
    show applyRpOptionsToUri M options uri₁ >>= applyWcOptionsToUri M options = _
    rw [hok₂]
    exact hok₃
  refine ⟨_,hsteps,?_,?_,?_⟩
  · rw [hrp]
    exact (congrArg UriView.readPrefs hview₃).trans (congrArg UriView.readPrefs hview₂)
  · rw [hwc]
    exact congrArg UriView.writeConcern hview₃
  · exact (congrArg UriView.mechanismProperties hview₃).trans
      ((congrArg UriView.mechanismProperties hview₂).trans
        (congrArg UriView.mechanismProperties hview))

theorem Passing.of_ok (hM : M.Regular) {uri uri' : Uri} {options : Doc} (hne : options ≠ [])
    (h : applyUriOptions M options uri = .ok uri') : Passing M uri options := by
  unfold applyUriOptions at h
  cases hok : applyOptionsToUri M options uri with
  | error e =>
    rw [hok] at h
    cases h
  | ok uri₁ =>
    obtain ⟨hpasses,hauth,hdirect⟩ := applyOptionsToUri_passes hM hne hok
    obtain ⟨uri₁',source,hok',hview⟩ := applyOptionsToUri_ok hM hne hpasses hauth hdirect
    obtain rfl : uri₁ = uri₁' := Except.ok.inj (hok.symm.trans hok')
    rw [hok] at h
    have h : applyRpOptionsToUri M options uri₁ >>= applyWcOptionsToUri M options = .ok uri' := h
    cases hok₂ : applyRpOptionsToUri M options uri₁ with
    | error e =>
      rw [hok₂] at h
      cases h
    | ok uri₂ =>
      rw [hok₂] at h
      obtain ⟨rp,hrp,hreads,hread,rfl⟩ := (applyRpOptionsToUri_ok_iff hne).mp hok₂
      obtain ⟨wc,hwc,hwrites,hwrite,-⟩ := (applyWcOptionsToUri_ok_iff hne).mp h
      have hview₂ := hM.view_setReadPrefs uri₁ (givenReadPrefs M.initStatic rp options)
      refine ⟨hpasses,hauth,hdirect,⟨rp,?_,hreads,hread⟩,⟨wc,?_,hwrites,hwrite⟩⟩
      · exact (congrArg UriView.readPrefs hview).symm.trans hrp
      · have hkept : M.getWriteConcern (M.setReadPrefs uri₁ _) = M.getWriteConcern uri₁ :=
          congrArg UriView.writeConcern hview₂
        have hkept₁ : M.getWriteConcern uri₁ = M.getWriteConcern uri :=
          congrArg UriView.writeConcern hview
        rw [← hkept₁,← hkept]
        exact hwc

end

end Phongo
