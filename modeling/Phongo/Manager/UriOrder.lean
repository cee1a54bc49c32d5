import Mathlib.Data.List.Nodup
import Phongo.Manager.UriSteps

/-! URI options in another order. -/
namespace Phongo
open Loop MongocUri

section
variable {Uri : Type} (M : MongocUri Uri)

def KeysDistinct (options : Doc) : Prop :=
  (options.map fun option => option.1.bytes.map lowerByte).Nodup

instance (options : Doc) : Decidable (KeysDistinct options) :=
  inferInstanceAs (Decidable (List.Nodup _))

/-- Both fail, or both succeed with the same read preference, write concern and mechanism
properties. -/
def SameOutcome : Throws Uri → Throws Uri → Prop
  | .ok uri, .ok uri' => M.getReadPrefs uri = M.getReadPrefs uri' ∧
      M.getWriteConcern uri = M.getWriteConcern uri' ∧
      M.getMechanismProperties uri = M.getMechanismProperties uri'
  | .error _, .error _ => True
  | _, _ => False

def OrderIndependent (uri : Uri) (options : Doc) : Prop :=
  ∀ options', options.Perm options' →
    SameOutcome M (applyUriOptions M options uri) (applyUriOptions M options' uri)

/-- Each option is right in itself, and so are they together. -/
structure Acceptable (uri : Uri) (options : Doc) : Prop where
  fits : ∀ option ∈ options, M.Fits uri option
  serviceName : ∀ option ∈ options, M.IsServiceName option → M.getMechanismProperties uri = none
  auth : (givenView M (M.view uri) options).AuthAccepted
  direct : (givenView M (M.view uri) options).DirectAccepted
  read : ∃ rp, M.getReadPrefs uri = some rp ∧ (∀ option ∈ options, ReadFits M.initStatic option) ∧
    ReadAccepted M (givenReadPrefs M.initStatic rp options)
  write : ∃ wc, M.getWriteConcern uri = some wc ∧ (∀ option ∈ options, WriteFits option) ∧
    (∀ option ∈ options, UnfitSafe option → ∃ option' ∈ options, option'.1.eqCase "w") ∧
    WriteAccepted M (givenWriteConcern wc options)

def IsMechanismProperties (option : CString × BsonValue) : Prop :=
  ∃ properties, M.action option = .set (.mechanismProperties properties)

/-- A staleness limit where the URI itself reads from the primary, a `safe` that is no boolean,
or a GSSAPI service name next to mechanism properties. -/
def OrderMatters (uri : Uri) (options : Doc) : Prop :=
  ((∃ rp, M.getReadPrefs uri = some rp ∧ rp.mode = .primary) ∧ ∃ option ∈ options, Limits option) ∨
    (∃ option ∈ options, UnfitSafe option) ∨
    (∃ option ∈ options, M.IsServiceName option) ∧ ∃ option ∈ options, IsMechanismProperties M option

end

section
variable {Uri : Type} {M : MongocUri Uri}

theorem KeysDistinct.single {options : Doc} (hd : KeysDistinct options) {β : Type}
    {g : CString × BsonValue → Option β} (name : String)
    (h : ∀ option, (g option).isSome → option.1.eqCase name) : Single g options := by
  intro option hmem option' hmem' hsome hsome'
  refine List.inj_on_of_nodup_map hd hmem hmem' ?_
  exact (of_decide_eq_true (h option hsome)).trans (of_decide_eq_true (h option' hsome')).symm

theorem KeysDistinct.perm {options options' : Doc} (hd : KeysDistinct options)
    (h : options.Perm options') : KeysDistinct options' := (h.map _).nodup_iff.mp hd

theorem eqCase_of_settingOption {β : Type} {part : UriSetting → Option β} {name : String}
    (h : ∀ key setting, (part setting).isSome → M.Named key (.set setting) → key.eqCase name)
    (option : CString × BsonValue) (hsome : (settingOption M part option).isSome) :
    option.1.eqCase name := by
  have hnamed := M.named_action option
  unfold settingOption at hsome
  cases haction : M.action option with
  | set setting =>
    rw [haction] at hsome hnamed
    exact h option.1 setting hsome hnamed
  | _ => simp [haction] at hsome

theorem eqCase_of_isSome_ite {β : Type} {option : CString × BsonValue} {name : String}
    {value : Option β} (h : (if option.1.eqCase name then value else none).isSome) :
    option.1.eqCase name := by
  by_contra hn
  simp [hn] at h

section
variable {options options' : Doc} (hd : KeysDistinct options)
include hd

theorem KeysDistinct.single_mode : Single modeOption options :=
  hd.single "readpreference" fun _ => eqCase_of_isSome_ite

theorem KeysDistinct.single_staleness : Single stalenessOption options :=
  hd.single "maxstalenessseconds" fun _ => eqCase_of_isSome_ite

theorem KeysDistinct.givenReadPrefs_perm (h : options.Perm options') (initStatic : Doc → Bool)
    (rp : ReadPrefs) : givenReadPrefs initStatic rp options =
      givenReadPrefs initStatic rp options' := by
  have htags : Single (tagsOption initStatic) options :=
    hd.single "readpreferencetags" fun _ => eqCase_of_isSome_ite
  unfold givenReadPrefs
  rw [hd.single_mode.given_perm h,htags.given_perm h,hd.single_staleness.given_perm h]

theorem KeysDistinct.givenWriteConcern_perm (h : options.Perm options') (wc : WriteConcern) :
    givenWriteConcern wc options = givenWriteConcern wc options' := by
  have hsafe : Single safeOption options := hd.single "safe" fun _ => eqCase_of_isSome_ite
  have hw : Single wOption options := hd.single "w" fun _ => eqCase_of_isSome_ite
  have hwtag : Single wtagOption options := hd.single "w" fun _ => eqCase_of_isSome_ite
  have hjournal : Single journalOption options := hd.single "journal" fun _ => eqCase_of_isSome_ite
  have hwtimeout : Single wtimeoutOption options :=
    hd.single "wtimeoutms" fun _ => eqCase_of_isSome_ite
  unfold givenWriteConcern
  rw [hsafe.given_perm h,hw.given_perm h,hwtag.given_perm h,hjournal.given_perm h,
    hwtimeout.given_perm h]

theorem KeysDistinct.single_setting {β : Type} (part : UriSetting → Option β) (name : String)
    (h : ∀ key setting, (part setting).isSome → M.Named key (.set setting) → key.eqCase name) :
    Single (settingOption M part) options :=
  hd.single name (eqCase_of_settingOption h)

theorem KeysDistinct.single_properties :
    Single (settingOption M UriSetting.newMechanismProperties) options := by
  refine hd.single_setting _ "authmechanismproperties" fun key setting hsome hnamed => ?_
  cases setting with
  | mechanismProperties => exact hnamed
  | _ => cases hsome

theorem KeysDistinct.single_serviceName : Single (serviceNameOption M) options := by
  refine hd.single "gssapiservicename" fun option hsome => ?_
  have hnamed := M.named_action option
  unfold serviceNameOption at hsome
  cases haction : M.action option with
  | serviceName properties =>
    rw [haction] at hnamed
    exact hnamed
  | _ => simp [haction] at hsome

theorem KeysDistinct.properties_perm (h : options.Perm options') (properties : Option Doc) :
    options.foldl (propertiesEffect M) properties =
      options'.foldl (propertiesEffect M) properties := by
  refine h.foldl_eq' (fun a ha a' ha' z => ?_) properties
  have hset := hd.single_properties (M := M) a ha a' ha'
  have hname := hd.single_serviceName (M := M) a ha a' ha'
  unfold propertiesEffect
  by_cases heq : a = a'
  · rw [heq]
  · cases hs : settingOption M UriSetting.newMechanismProperties a <;>
      cases hs' : settingOption M UriSetting.newMechanismProperties a' <;>
      cases hn : serviceNameOption M a <;> cases hn' : serviceNameOption M a' <;>
      cases z <;> simp_all

theorem KeysDistinct.givenView_perm (h : options.Perm options') (v : UriView) :
    givenView M v options = givenView M v options' := by
  have husername : Single (settingOption M UriSetting.newUsername) options :=
    hd.single_setting _ "username" fun key setting hsome hnamed => by
      cases setting with
      | username => exact hnamed
      | _ => cases hsome
  have hpassword : Single (settingOption M UriSetting.newPassword) options :=
    hd.single_setting _ "password" fun key setting hsome hnamed => by
      cases setting with
      | password => exact hnamed
      | _ => cases hsome
  have hmechanism : Single (settingOption M UriSetting.newAuthMechanism) options :=
    hd.single_setting _ "authmechanism" fun key setting hsome hnamed => by
      cases setting with
      | authMechanism => exact hnamed
      | _ => cases hsome
  have hsource : Single (settingOption M UriSetting.newAuthSource) options :=
    hd.single_setting _ "authsource" fun key setting hsome hnamed => by
      cases setting with
      | authSource => exact hnamed
      | _ => cases hsome
  have hdirect : Single (settingOption M UriSetting.newDirectConnection) options :=
    hd.single_setting _ "directconnection" fun key setting hsome hnamed => by
      cases setting with
      | bool k b =>
        obtain ⟨rfl,-⟩ := hnamed
        exact by_contra fun hn => by simp [UriSetting.newDirectConnection,hn] at hsome
      | _ => cases hsome
  unfold givenView
  rw [hd.properties_perm h,husername.given_perm h,hpassword.given_perm h,
    hmechanism.given_perm h,hsource.given_perm h,hdirect.given_perm h]

theorem Acceptable.perm {uri : Uri} (h : options.Perm options') (ha : Acceptable M uri options) :
    Acceptable M uri options' := by
  have hmem : ∀ {option}, option ∈ options' → option ∈ options := h.mem_iff.mpr
  obtain ⟨rp,hrp,hreads,hread⟩ := ha.read
  obtain ⟨wc,hwc,hwrites,hsafe,hwrite⟩ := ha.write
  refine ⟨fun o ho => ha.fits o (hmem ho),fun o ho => ha.serviceName o (hmem ho),?_,?_,
    ⟨rp,hrp,fun o ho => hreads o (hmem ho),?_⟩,
    ⟨wc,hwc,fun o ho => hwrites o (hmem ho),fun o ho hunfit => ?_,?_⟩⟩
  · rw [← hd.givenView_perm h]
    exact ha.auth
  · rw [← hd.givenView_perm h]
    exact ha.direct
  · rw [← hd.givenReadPrefs_perm h]
    exact hread
  · obtain ⟨w,hw,hkey⟩ := hsafe o (hmem ho) hunfit
    exact ⟨w,h.mem_iff.mp hw,hkey⟩
  · rw [← hd.givenWriteConcern_perm h]
    exact hwrite

end

theorem properties_isSome (options : Doc) {properties : Option Doc} (h : properties.isSome) :
    (options.foldl (propertiesEffect M) properties).isSome := by
  induction options generalizing properties with
  | nil => exact h
  | cons option options ih =>
    refine ih ?_
    simp [propertiesEffect,h]

theorem Passing.acceptable {uri : Uri} {options : Doc} (h : Passing M uri options) :
    Acceptable M uri options := by
  obtain ⟨rp,hrp,hreads,hread⟩ := h.read
  obtain ⟨wc,hwc,hwrites,hwrite⟩ := h.write
  refine ⟨fun o ho => ?_,fun o ho hname => ?_,h.auth,h.direct,⟨rp,hrp,fun o ho => ?_,hread⟩,
    ⟨wc,hwc,fun o ho => ?_,fun o ho hunfit => ?_,hwrite⟩⟩
  · obtain ⟨pre,-,hallowed⟩ := h.passes.of_mem ho
    exact hallowed.1
  · obtain ⟨pre,-,hallowed⟩ := h.passes.of_mem ho
    have hnone := hallowed.2 hname
    rw [foldl_effect] at hnone
    by_contra hsome
    have := properties_isSome (M := M) pre (Option.isSome_iff_ne_none.mpr hsome)
    rw [show pre.foldl (propertiesEffect M) (M.getMechanismProperties uri) = none from hnone] at this
    cases this
  · obtain ⟨pre,-,hallowed⟩ := hreads.of_mem ho
    exact hallowed.1
  · obtain ⟨pre,-,hallowed⟩ := hwrites.of_mem ho
    exact hallowed.1
  · obtain ⟨pre,hpre,hallowed⟩ := hwrites.of_mem ho
    have hignored := hallowed.2 hunfit
    rw [foldl_writeEffect] at hignored
    obtain ⟨w,hw,hsome⟩ := List.any_eq_true.mp hignored
    exact ⟨w,hpre hw,eqCase_of_isSome_ite hsome⟩

variable (M) in
structure Ordered (uri : Uri) (options : Doc) : Prop where
  mode : ∀ pre option post, options = pre ++ option::post → Limits option →
    ∀ rp, M.getReadPrefs uri = some rp → rp.mode = .primary →
      ∀ mode ∈ options, mode.1.eqCase "readpreference" → mode ∈ pre
  w : ∀ pre option post, options = pre ++ option::post → UnfitSafe option →
    ∀ w ∈ options, w.1.eqCase "w" → w ∈ pre
  properties : ∀ pre option post, options = pre ++ option::post → M.IsServiceName option →
    ∀ properties ∈ pre, ¬ IsMechanismProperties M properties

theorem Acceptable.reads_pass {uri : Uri} {options : Doc} (hd : KeysDistinct options)
    (ha : Acceptable M uri options) (ho : Ordered M uri options) {rp : ReadPrefs}
    (hrp : M.getReadPrefs uri = some rp) :
    Passes (readAllowed M.initStatic) (readEffect M.initStatic) rp options := by
  obtain ⟨rp',hrp',hreads,hread⟩ := ha.read
  obtain rfl : rp = rp' := Option.some.inj (hrp.symm.trans hrp')
  refine passes_iff.mpr fun pre option post h => ?_
  have hmem : option ∈ options := h ▸ List.mem_append_right pre List.mem_cons_self
  have hpre : pre ⊆ options := h ▸ List.subset_append_left pre _
  refine ⟨hreads option hmem,?_⟩
  rintro ⟨n,hn,hne⟩ hprimary
  rw [foldl_readEffect] at hprimary
  have hprimary : given modeOption rp.mode pre = .primary := hprimary
  -- the final mode is not primary, as the limit is the final one
  have hstaleness : given stalenessOption rp.maxStalenessSeconds options = n :=
    hd.single_staleness.given_eq hmem hn
  have hfinal : given modeOption rp.mode options ≠ .primary := fun hmode =>
    hread.2.1 ⟨hmode,fun h => hne (hstaleness.symm.trans h)⟩
  by_cases hin : ∃ mode ∈ pre, mode.1.eqCase "readpreference"
  · obtain ⟨mode,hmode,hkey⟩ := hin
    obtain ⟨m,hm⟩ := Option.isSome_iff_exists.mp ((hreads mode (hpre hmode)).mode hkey)
    rw [(hd.single_mode.subset hpre).given_eq hmode hm] at hprimary
    rw [hd.single_mode.given_eq (hpre hmode) hm] at hfinal
    exact hfinal hprimary
  · have hout : ∀ mode ∈ pre, modeOption mode = none := fun mode hmode =>
      if_neg fun hkey => hin ⟨mode,hmode,hkey⟩
    rw [given_of_none hout] at hprimary
    refine hfinal ((given_of_none fun mode hmode => if_neg fun hkey => ?_).trans hprimary)
    exact hin ⟨mode,ho.mode pre option post h ⟨n,hn,hne⟩ rp hrp hprimary mode hmode hkey,hkey⟩

theorem Acceptable.writes_pass {uri : Uri} {options : Doc} (ha : Acceptable M uri options)
    (ho : Ordered M uri options) (wc : WriteConcern) :
    Passes writeAllowed writeEffect (wc,false) options := by
  obtain ⟨-,-,hwrites,hsafe,-⟩ := ha.write
  refine passes_iff.mpr fun pre option post h => ?_
  have hmem : option ∈ options := h ▸ List.mem_append_right pre List.mem_cons_self
  refine ⟨hwrites option hmem,fun hunfit => ?_⟩
  obtain ⟨w,hw,hkey⟩ := hsafe option hmem hunfit
  rw [foldl_writeEffect]
  exact List.any_eq_true.mpr ⟨w,ho.w pre option post h hunfit w hw hkey,(hwrites w hw).w hkey⟩

theorem properties_none {options : Doc}
    (h : ∀ option ∈ options, propertiesEffect M none option = none) :
    options.foldl (propertiesEffect M) none = none := by
  induction options with
  | nil => rfl
  | cons option options ih =>
    rw [List.foldl_cons,h option List.mem_cons_self]
    exact ih fun o ho => h o (List.mem_cons_of_mem option ho)

theorem isServiceName_iff {option : CString × BsonValue} :
    M.IsServiceName option ↔ (serviceNameOption M option).isSome := by
  unfold MongocUri.IsServiceName serviceNameOption
  cases M.action option <;> simp

theorem isMechanismProperties_iff {option : CString × BsonValue} : IsMechanismProperties M option ↔
    (settingOption M UriSetting.newMechanismProperties option).isSome := by
  unfold IsMechanismProperties settingOption
  cases M.action option with
  | set setting => cases setting <;> simp [UriSetting.newMechanismProperties]
  | _ => simp

theorem Acceptable.options_pass {uri : Uri} {options : Doc} (hd : KeysDistinct options)
    (ha : Acceptable M uri options) (ho : Ordered M uri options) :
    Passes (M.allowed uri) M.effect (M.view uri) options := by
  refine passes_iff.mpr fun pre option post h => ?_
  have hmem : option ∈ options := h ▸ List.mem_append_right pre List.mem_cons_self
  refine ⟨ha.fits option hmem,fun hname => ?_⟩
  rw [foldl_effect]
  show pre.foldl (propertiesEffect M) (M.getMechanismProperties uri) = none
  rw [ha.serviceName option hmem hname]
  refine properties_none fun o hpre => ?_
  have hset : settingOption M UriSetting.newMechanismProperties o = none := by
    have := ho.properties pre option post h hname o hpre
    rwa [isMechanismProperties_iff,Option.not_isSome_iff_eq_none] at this
  have hother : serviceNameOption M o = none := by
    by_contra hsome
    -- a second service name would be the same option twice
    obtain rfl : o = option := hd.single_serviceName (M := M) o (h ▸ List.mem_append_left _ hpre)
      option hmem (Option.isSome_iff_ne_none.mpr hsome) (isServiceName_iff.mp hname)
    have hnodup : options.Nodup := hd.of_map
    rw [h,List.nodup_middle] at hnodup
    exact (List.nodup_cons.mp hnodup).1 (List.mem_append_left post hpre)
  unfold propertiesEffect
  rw [hset,hother]
  rfl

theorem Acceptable.passing {uri : Uri} {options : Doc} (hd : KeysDistinct options)
    (ha : Acceptable M uri options) (ho : Ordered M uri options) : Passing M uri options := by
  obtain ⟨rp,hrp,-,hread⟩ := ha.read
  obtain ⟨wc,hwc,-,-,hwrite⟩ := ha.write
  exact ⟨ha.options_pass hd ho,ha.auth,ha.direct,⟨rp,hrp,ha.reads_pass hd ho hrp,hread⟩,
    ⟨wc,hwc,ha.writes_pass ho wc,hwrite⟩⟩

theorem ordered_of_not_orderMatters {uri : Uri} {options : Doc} (h : ¬ OrderMatters M uri options) :
    Ordered M uri options := by
  refine ⟨?_,?_,?_⟩
  · rintro pre option post rfl hlimits rp hrp hprimary
    exact absurd (.inl ⟨⟨rp,hrp,hprimary⟩,option,by simp,hlimits⟩) h
  · rintro pre option post rfl hunfit
    exact absurd (.inr (.inl ⟨option,by simp,hunfit⟩)) h
  · rintro pre option post rfl hname properties hmem hproperties
    exact absurd (.inr (.inr ⟨⟨option,by simp,hname⟩,properties,by simp [hmem],hproperties⟩)) h

variable (M) in
def isEarly (option : CString × BsonValue) : Bool :=
  option.1.eqCase "readpreference" || option.1.eqCase "w" || (serviceNameOption M option).isSome

theorem isEarly_eq_false {option : CString × BsonValue} {name : String}
    (h : option.1.eqCase name)
    (hmode : (ascii name).map lowerByte ≠ (ascii "readpreference").map lowerByte)
    (hw : (ascii name).map lowerByte ≠ (ascii "w").map lowerByte)
    (hservice : (ascii name).map lowerByte ≠ (ascii "gssapiservicename").map lowerByte) :
    isEarly M option = false := by
  have hnone : serviceNameOption M option = none := by
    have hnamed := M.named_action option
    unfold serviceNameOption
    cases haction : M.action option with
    | serviceName properties =>
      rw [haction] at hnamed
      exact absurd hnamed (CString.not_eqCase h hservice)
    | _ => rfl
  unfold isEarly
  rw [CString.eqCase_false h hmode,CString.eqCase_false h hw,hnone]
  rfl

theorem ordered_early (uri : Uri) (options : Doc) :
    Ordered M uri (early (isEarly M) options) := by
  have hmem : ∀ {option}, option ∈ early (isEarly M) options → option ∈ options :=
    (early_perm _ _).mem_iff.mp
  refine ⟨?_,?_,?_⟩
  · rintro pre option post h ⟨n,hn,-⟩ rp - - mode hmode hkey
    have hname : option.1.eqCase "maxstalenessseconds" := eqCase_of_isSome_ite (by
      rw [stalenessOption] at hn
      rw [hn]
      rfl)
    exact mem_of_early h (isEarly_eq_false hname (by decide) (by decide) (by decide)) (hmem hmode)
      (by simp [isEarly,hkey])
  · rintro pre option post h hunfit w hw hkey
    exact mem_of_early h (isEarly_eq_false hunfit.1 (by decide) (by decide) (by decide)) (hmem hw)
      (by simp [isEarly,hkey])
  · rintro pre option post h hname properties hpre ⟨p,hp⟩
    have hearly := of_mem_early h (by simp [isEarly,isServiceName_iff.mp hname]) hpre
    have hnamed := M.named_action properties
    rw [hp] at hnamed
    have hname : properties.1.eqCase "authmechanismproperties" := hnamed
    rw [isEarly_eq_false hname (by decide) (by decide) (by decide)] at hearly
    cases hearly

theorem exists_not_passing {uri : Uri} {options : Doc} (h : OrderMatters M uri options) :
    ∃ options', options.Perm options' ∧ ¬ Passing M uri options' := by
  rcases h with ⟨⟨rp,hrp,hprimary⟩,option,hmem,hlimits⟩ | ⟨option,hmem,hunfit⟩ |
    ⟨⟨option,hmem,hname⟩,properties,hmem',hproperties⟩
  · obtain ⟨pre,post,rfl⟩ := List.append_of_mem hmem
    refine ⟨option::(pre ++ post),List.perm_middle,fun hp => ?_⟩
    obtain ⟨rp',hrp',hreads,-⟩ := hp.read
    obtain rfl : rp = rp' := Option.some.inj (hrp.symm.trans hrp')
    exact hreads.1.2 hlimits hprimary
  · obtain ⟨pre,post,rfl⟩ := List.append_of_mem hmem
    refine ⟨option::(pre ++ post),List.perm_middle,fun hp => ?_⟩
    obtain ⟨wc,-,hwrites,-⟩ := hp.write
    exact Bool.false_ne_true (hwrites.1.2 hunfit)
  · obtain ⟨pre,post,rfl⟩ := List.append_of_mem hmem'
    refine ⟨properties::(pre ++ post),List.perm_middle,fun hp => ?_⟩
    have hne : option ≠ properties := by
      rintro rfl
      obtain ⟨p,hp⟩ := hname
      obtain ⟨p',hp'⟩ := hproperties
      cases hp.symm.trans hp'
    have hrest : option ∈ pre ++ post := by simpa [hne] using hmem
    obtain ⟨mid,-,hallowed⟩ := hp.passes.2.of_mem hrest
    have hnone := hallowed.2 hname
    rw [foldl_effect,effect_eq_givenView] at hnone
    have hsome : (propertiesEffect M (M.getMechanismProperties uri) properties).isSome := by
      obtain ⟨p,hp⟩ := hproperties
      simp [propertiesEffect,settingOption,hp,UriSetting.newMechanismProperties]
    have hkept := properties_isSome (M := M) mid hsome
    exact Option.isSome_iff_ne_none.mp hkept hnone

theorem OrderMatters.perm {uri : Uri} {options options' : Doc} (h : options.Perm options')
    (hm : OrderMatters M uri options) : OrderMatters M uri options' := by
  unfold OrderMatters at hm ⊢
  simpa only [h.mem_iff] using hm

theorem isError_of_not_passing (hM : M.Regular) {uri : Uri} {options : Doc} (hne : options ≠ [])
    (h : ¬ Passing M uri options) : ∃ e, applyUriOptions M options uri = .error e := by
  cases hrun : applyUriOptions M options uri with
  | error e => exact ⟨e,rfl⟩
  | ok uri' => exact absurd (Passing.of_ok hM hne hrun) h

/-- Where two orders succeed, they agree on what the URI then tells. -/
theorem Shows.perm {uri uri₁ uri₂ : Uri} {options options' : Doc} (hd : KeysDistinct options)
    (h : options.Perm options') (h₁ : Shows M uri uri₁ options) (h₂ : Shows M uri uri₂ options') :
    SameOutcome M (.ok uri₁) (.ok uri₂) := by
  obtain ⟨hrp,hwc,hproperties⟩ := h₁
  obtain ⟨hrp',hwc',hproperties'⟩ := h₂
  refine ⟨?_,?_,?_⟩
  · rw [hrp,hrp',funext fun rp => hd.givenReadPrefs_perm h M.initStatic rp]
  · rw [hwc,hwc',funext fun wc => hd.givenWriteConcern_perm h wc]
  · rw [hproperties,hproperties',hd.properties_perm h]

/-- Order matters exactly to acceptable options among which is one of the three pairs. -/
theorem orderIndependent_iff (hM : M.Regular) (uri : Uri) {options : Doc}
    (hd : KeysDistinct options) :
    OrderIndependent M uri options ↔
      (Acceptable M uri options → ¬ OrderMatters M uri options) := by
  constructor
  · intro h ha hmatters
    obtain ⟨worst,hworst,hfails⟩ := exists_not_passing hmatters
    have hbest : options.Perm (early (isEarly M) options) := (early_perm _ _).symm
    have hne : options ≠ [] := by
      rintro rfl
      simp [OrderMatters] at hmatters
    have hne' : ∀ {options'}, options.Perm options' → options' ≠ [] := fun hperm h => by
      subst h
      exact hne hperm.eq_nil
    have hpassing := (ha.perm hd hbest).passing (hd.perm hbest) (ordered_early uri options)
    obtain ⟨uri₁,hok,-⟩ := applyUriOptions_ok hM (hne' hbest) hpassing
    obtain ⟨e,herror⟩ := isError_of_not_passing hM (hne' hworst) hfails
    have hsame := h _ hbest
    have hsame' := h _ hworst
    rw [hok] at hsame
    rw [herror] at hsame'
    cases hrun : applyUriOptions M options uri with
    | error e =>
      rw [hrun] at hsame
      exact hsame
    | ok uri' =>
      rw [hrun] at hsame'
      exact hsame'
  · intro h options' hperm
    by_cases hne : options = []
    · subst hne
      rw [hperm.nil_eq.symm]
      cases applyUriOptions M [] uri with
      | error e => trivial
      | ok uri' => exact ⟨rfl,rfl,rfl⟩
    have hne' : options' ≠ [] := fun h' => hne (h' ▸ hperm).eq_nil
    by_cases ha : Acceptable M uri options
    · have hmatters := h ha
      have hp := ha.passing hd (ordered_of_not_orderMatters hmatters)
      have hp' := (ha.perm hd hperm).passing (hd.perm hperm)
        (ordered_of_not_orderMatters fun hm => hmatters (hm.perm hperm.symm))
      obtain ⟨uri₁,hok,hshows⟩ := applyUriOptions_ok hM hne hp
      obtain ⟨uri₂,hok',hshows'⟩ := applyUriOptions_ok hM hne' hp'
      rw [hok,hok']
      exact hshows.perm hd hperm hshows'
    · have ha' : ¬ Acceptable M uri options' := fun h' => ha (h'.perm (hd.perm hperm) hperm.symm)
      obtain ⟨e,he⟩ := isError_of_not_passing hM hne fun hp => ha hp.acceptable
      obtain ⟨e',he'⟩ := isError_of_not_passing hM hne' fun hp => ha' hp.acceptable
      rw [he,he']
      trivial

end

theorem not_orderMatters_of_keys {Uri : Type} {M : MongocUri Uri} {uri : Uri} {options : Doc}
    (h : ∀ option ∈ options, option.1.eqCase "maxstalenessseconds" = false ∧
      option.1.eqCase "safe" = false ∧ option.1.eqCase "gssapiservicename" = false) :
    ¬ OrderMatters M uri options := by
  rintro (⟨-,option,hmem,n,hn,-⟩ | ⟨option,hmem,hsafe,-⟩ | ⟨⟨option,hmem,properties,hname⟩,-⟩)
  · unfold stalenessOption at hn
    rw [(h option hmem).1] at hn
    cases hn
  · rw [(h option hmem).2.1] at hsafe
    cases hsafe
  · have hnamed := M.named_action option
    rw [hname] at hnamed
    exact Bool.false_ne_true ((h option hmem).2.2.symm.trans hnamed)

theorem orderIndependent_modeAndW :
    OrderIndependent MongocUri.ofView localUri
      [(CString.lit "readPreference",.utf8 (ascii "secondary")),(CString.lit "w",.int32 2)] :=
  (orderIndependent_iff MongocUri.regular_ofView localUri (by decide +kernel)).mpr
    fun _ => not_orderMatters_of_keys (by decide +kernel)

theorem SameOutcome.toBool_eq {Uri : Type} {M : MongocUri Uri} {r r' : Throws Uri}
    (h : SameOutcome M r r') : r.toBool = r'.toBool := by
  cases r with
  | error e =>
    cases r' with
    | error e' => rfl
    | ok uri' => exact h.elim
  | ok uri =>
    cases r' with
    | error e' => exact h.elim
    | ok uri' => rfl

/-- maxStalenessSeconds before readPreference meets the URI's own mode. -/
theorem not_orderIndependent :
    ¬ ∀ (uri : UriView) (options : Doc), KeysDistinct options →
      OrderIndependent MongocUri.ofView uri options := by
  intro h
  have hsame := h localUri
    [(CString.lit "maxStalenessSeconds",.int32 100),
      (CString.lit "readPreference",.utf8 (ascii "secondary"))] (by decide +kernel)
    [(CString.lit "readPreference",.utf8 (ascii "secondary")),
      (CString.lit "maxStalenessSeconds",.int32 100)] (List.Perm.swap _ _ _)
  exact absurd hsame.toBool_eq (by decide +kernel)

end Phongo
