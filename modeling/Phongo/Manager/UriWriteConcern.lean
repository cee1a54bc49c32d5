import Mathlib.Tactic.Common
import Phongo.Manager.UriOrder

/-! What the write concern options of a URI amount to, whatever their order and whatever write
concern the URI had. -/
namespace Phongo
open Loop

/-- The value of the option of a name, up to case. -/
def optionNamed (options : Doc) (name : String) : Option BsonValue :=
  (options.find? fun option => option.1.eqCase name).map Prod.snd

/-- A `w` as libmongoc reports it: a number, or a tag. -/
inductive EffectiveW
  | number (w : Int32)
  | tag (wtag : Option CString)
  deriving DecidableEq

/-- `mongoc_write_concern_get_w` and `mongoc_write_concern_get_wtag` -/
def WriteConcern.effectiveW (wc : WriteConcern) : EffectiveW :=
  if wc.w = wTag then .tag wc.wtag else .number wc.w

/-- What a `w` option asks for. -/
def askedW : BsonValue → Option EffectiveW
  | .int32 w => some (.number w)
  | .utf8 s =>
    some (if (CString.ofBytes s).eqCase "majority" then .number wMajority
      else .tag (some (CString.ofBytes s)))
  | _ => none

/-- What a `safe` option asks for. -/
def askedSafe : BsonValue → Option EffectiveW
  | .bool safe => some (.number (if safe then 1 else wUnacknowledged))
  | _ => none

def askedJournal : BsonValue → Option Bool
  | .bool journal => some journal
  | _ => none

def askedWtimeout : BsonValue → Option Int64
  | .int32 n => some n.toInt64
  | .int64 n => some n
  | _ => none

/-- The values of the write concern options have the types they are to have. -/
structure WellTyped (options : Doc) : Prop where
  safe : ∀ option ∈ options, option.1.eqCase "safe" → (askedSafe option.2).isSome
  w : ∀ option ∈ options, option.1.eqCase "w" → (askedW option.2).isSome
  journal : ∀ option ∈ options, option.1.eqCase "journal" → (askedJournal option.2).isSome
  wtimeout : ∀ option ∈ options, option.1.eqCase "wtimeoutms" → (askedWtimeout option.2).isSome

/-- The option `w`, else the option `safe`, else what the URI had. -/
def resultingW (wc : WriteConcern) (options : Doc) : EffectiveW :=
  ((optionNamed options "w").bind askedW).getD
    (((optionNamed options "safe").bind askedSafe).getD wc.effectiveW)

def resultingJournal (wc : WriteConcern) (options : Doc) : Option Bool :=
  (((optionNamed options "journal").bind askedJournal).map some).getD wc.journal

def resultingWtimeout (wc : WriteConcern) (options : Doc) : Int64 :=
  ((optionNamed options "wtimeoutms").bind askedWtimeout).getD wc.wtimeout

/-- A journal flag with a `w` of 0 or -1. -/
def JournalConflicts (journal : Option Bool) (w : EffectiveW) : Prop :=
  journal = some true ∧ (w = .number wUnacknowledged ∨ w = .number wErrorsIgnored)

/-- The options can be applied to the write concern. -/
structure WriteApplicable (wc : WriteConcern) (options : Doc) : Prop where
  w : ∀ n, optionNamed options "w" = some (.int32 n) → n = -1 ∨ n = 0 ∨ 0 < n
  wtimeout : 0 ≤ resultingWtimeout wc options
  journal : ¬ JournalConflicts (resultingJournal wc options) (resultingW wc options)

/-- A valid write concern that is set is the URI's, and what libmongoc calls valid. -/
structure MongocUri.KeepsWriteConcern {Uri : Type} (M : MongocUri Uri) : Prop where
  get_set : ∀ uri wc, M.writeConcernIsValid wc = true →
    M.getWriteConcern (M.setWriteConcern uri wc) = some wc
  isValid_iff : ∀ wc, M.writeConcernIsValid wc = true ↔
    ¬ JournalConflicts wc.journal wc.effectiveW ∧ 0 ≤ wc.wtimeout

/-- The URI after `php_phongo_apply_wc_options_to_uri`, which sets nothing where it throws. -/
def uriAfterWcOptions {Uri : Type} (M : MongocUri Uri) (options : Doc) (uri : Uri) : Uri :=
  match applyWcOptionsToUri M options uri with
  | .ok uri' => uri'
  | .error _ => uri

theorem effectiveW_eq_number {wc : WriteConcern} {w : Int32} (hw : w ≠ wTag) :
    wc.effectiveW = .number w ↔ wc.w = w := by
  unfold WriteConcern.effectiveW
  by_cases ht : wc.w = wTag
  · rw [if_pos ht,ht]
    exact ⟨fun h => (by cases h),fun h => absurd h.symm hw⟩
  · rw [if_neg ht,EffectiveW.number.injEq]

theorem journalConflicts_iff (wc : WriteConcern) : JournalConflicts wc.journal wc.effectiveW ↔
    wc.journal = some true ∧ (wc.w = wUnacknowledged ∨ wc.w = wErrorsIgnored) := by
  unfold JournalConflicts
  rw [effectiveW_eq_number (by decide),effectiveW_eq_number (by decide)]

theorem wtimeoutOption_eq {option : CString × BsonValue} (hname : option.1.eqCase "wtimeoutms") :
    wtimeoutOption option = (askedWtimeout option.2).bind wtimeoutInRange := by
  rcases option with ⟨key,v⟩
  cases v <;> exact if_pos hname

section Given
variable {options : Doc} (hd : KeysDistinct options)
include hd

theorem KeysDistinct.named_unique {name : String} {option option' : CString × BsonValue}
    (h : option ∈ options) (h' : option' ∈ options) (hname : option.1.eqCase name)
    (hname' : option'.1.eqCase name) : option = option' :=
  List.inj_on_of_nodup_map hd h h'
    ((of_decide_eq_true hname).trans (of_decide_eq_true hname').symm)

theorem KeysDistinct.optionNamed_of_mem {name : String} {option : CString × BsonValue}
    (h : option ∈ options) (hname : option.1.eqCase name) :
    optionNamed options name = some option.2 := by
  unfold optionNamed
  cases hfind : options.find? fun option => option.1.eqCase name with
  | none => exact absurd hname (List.find?_eq_none.mp hfind option h)
  | some option' =>
    have hname' : option'.1.eqCase name = true := by simpa using List.find?_some hfind
    rw [hd.named_unique h (List.mem_of_find?_eq_some hfind) hname hname']
    rfl

/-- What options of one name give is what the value of the option of that name gives. -/
theorem KeysDistinct.given_eq {β : Type} {g : CString × BsonValue → Option β} {name : String}
    {value : BsonValue → Option β}
    (hg : ∀ option, g option = if option.1.eqCase name then value option.2 else none) (b : β) :
    given g b options = ((optionNamed options name).bind value).getD b := by
  have hsingle : Single g options := hd.single name fun option hsome => by
    by_contra hn
    rw [hg,if_neg hn] at hsome
    cases hsome
  by_cases hex : ∃ option ∈ options, option.1.eqCase name
  · obtain ⟨option,hmem,hname⟩ := hex
    have hvalue : g option = value option.2 := (hg option).trans (if_pos hname)
    rw [hd.optionNamed_of_mem hmem hname,Option.bind_some,← hvalue]
    cases hoption : g option with
    | some c => exact hsingle.given_eq hmem hoption
    | none =>
      refine given_of_none fun option' hmem' => ?_
      by_cases hname' : option'.1.eqCase name
      · rw [hd.named_unique hmem' hmem hname' hname,hoption]
      · exact (hg option').trans (if_neg hname')
  · have hnone : optionNamed options name = none := by
      unfold optionNamed
      rw [List.find?_eq_none.mpr fun option hmem hname => hex ⟨option,hmem,hname⟩]
      rfl
    rw [hnone]
    refine given_of_none fun option hmem => (hg option).trans (if_neg fun hname => ?_)
    exact hex ⟨option,hmem,hname⟩

end Given

theorem mem_of_optionNamed {options : Doc} {name : String} {v : BsonValue}
    (h : optionNamed options name = some v) :
    ∃ option ∈ options, option.1.eqCase name ∧ option.2 = v := by
  obtain ⟨option,hfind,rfl⟩ := Option.map_eq_some_iff.mp h
  have hname : option.1.eqCase name = true := by simpa using List.find?_some hfind
  exact ⟨option,List.mem_of_find?_eq_some hfind,hname,rfl⟩

section Resulting
variable {options : Doc} {wc : WriteConcern} (hd : KeysDistinct options) (ht : WellTyped options)
include hd

theorem KeysDistinct.journal_givenWriteConcern :
    (givenWriteConcern wc options).journal = resultingJournal wc options := by
  have hgiven : given journalOption wc.journal options = ((optionNamed options "journal").bind
      fun v => (askedJournal v).map some).getD wc.journal :=
    hd.given_eq (fun option => by rcases option with ⟨key,v⟩; cases v <;> rfl) wc.journal
  unfold resultingJournal
  rw [Option.map_bind]
  exact hgiven

theorem KeysDistinct.wtimeout_givenWriteConcern (hn : ∀ n,
    (optionNamed options "wtimeoutms").bind askedWtimeout = some n → 0 ≤ n) :
    (givenWriteConcern wc options).wtimeout = resultingWtimeout wc options := by
  have hgiven : given wtimeoutOption wc.wtimeout options = ((optionNamed options "wtimeoutms").bind
      fun v => (askedWtimeout v).bind wtimeoutInRange).getD wc.wtimeout :=
    hd.given_eq (fun option => by rcases option with ⟨key,v⟩; cases v <;> rfl) wc.wtimeout
  unfold resultingWtimeout
  refine hgiven.trans ?_
  rw [← Option.bind_assoc]
  cases hoption : (optionNamed options "wtimeoutms").bind askedWtimeout with
  | none => rfl
  | some n =>
    have hrange : wtimeoutInRange n = some n := if_neg (Int64.not_lt.mpr (hn n hoption))
    rw [Option.bind_some,hrange]

theorem KeysDistinct.wtag_givenWriteConcern : (givenWriteConcern wc options).wtag =
    ((optionNamed options "w").bind fun v => wtagOption (CString.lit "w",v)).getD wc.wtag :=
  hd.given_eq (fun option => by rcases option with ⟨key,v⟩; cases v <;> rfl) wc.wtag

theorem KeysDistinct.w_givenWriteConcern : (givenWriteConcern wc options).w =
    ((optionNamed options "w").bind fun v => wOption (CString.lit "w",v)).getD
      (((optionNamed options "safe").bind fun v => safeOption (CString.lit "safe",v)).getD wc.w) := by
  have hsafe : given safeOption wc.w options = ((optionNamed options "safe").bind
      fun v => safeOption (CString.lit "safe",v)).getD wc.w :=
    hd.given_eq (fun option => by rcases option with ⟨key,v⟩; cases v <;> rfl) wc.w
  rw [← hsafe]
  exact hd.given_eq (fun option => by rcases option with ⟨key,v⟩; cases v <;> rfl) _

include ht

theorem KeysDistinct.effectiveW_givenWriteConcern
    (hn : ∀ n, optionNamed options "w" = some (.int32 n) → n = -1 ∨ n = 0 ∨ 0 < n) :
    (givenWriteConcern wc options).effectiveW = resultingW wc options := by
  unfold WriteConcern.effectiveW resultingW
  rw [hd.w_givenWriteConcern,hd.wtag_givenWriteConcern]
  cases hw : optionNamed options "w" with
  | none =>
    cases hsafe : optionNamed options "safe" with
    | none => rfl
    | some v =>
      obtain ⟨option,hmem,hname,rfl⟩ := mem_of_optionNamed hsafe
      have htyped := ht.safe option hmem hname
      cases hv : option.2 with
      | bool safe => cases safe <;> rfl
      | _ => simp [hv,askedSafe] at htyped
  | some v =>
    obtain ⟨option,hmem,hname,rfl⟩ := mem_of_optionNamed hw
    have htyped := ht.w option hmem hname
    cases hv : option.2 with
    | int32 n =>
      rw [hv] at hw
      have hallowed := hn n hw
      have hstored : wOption (CString.lit "w",.int32 n) = some n := if_pos hallowed
      have hne : n ≠ wTag := by
        rintro rfl
        exact absurd hallowed (by decide)
      simp only [Option.bind_some,hstored,Option.getD_some,askedW,if_neg hne]
    | utf8 s =>
      simp only [Option.bind_some,askedW,Option.getD_some]
      by_cases hmajority : (CString.ofBytes s).eqCase "majority"
      · have hstored : wOption (CString.lit "w",.utf8 s) = some wMajority :=
          congrArg some (if_pos hmajority)
        have hne : wMajority ≠ wTag := by decide
        simp only [hstored,Option.getD_some,if_neg hne,if_pos hmajority]
      · have hstored : wOption (CString.lit "w",.utf8 s) = some wTag :=
          congrArg some (if_neg hmajority)
        have htag : wtagOption (CString.lit "w",.utf8 s) = some (some (CString.ofBytes s)) :=
          if_neg hmajority
        simp only [hstored,htag,Option.getD_some,if_true,if_neg hmajority]
    | _ => simp [hv,askedW] at htyped

/-- The loop gets through well-typed options where their values are in range. -/
theorem KeysDistinct.passes_write_iff :
    Passes writeAllowed writeEffect (wc,false) options ↔
      (∀ n, optionNamed options "w" = some (.int32 n) → n = -1 ∨ n = 0 ∨ 0 < n) ∧
        ∀ n, (optionNamed options "wtimeoutms").bind askedWtimeout = some n → 0 ≤ n := by
  constructor
  · intro hpasses
    refine ⟨fun n hn => ?_,fun n hn => ?_⟩
    · obtain ⟨option,hmem,hname,hv⟩ := mem_of_optionNamed hn
      obtain ⟨pre,-,hfits,-⟩ := hpasses.of_mem hmem
      have hsome := hfits.w hname
      unfold wOption at hsome
      rw [if_pos hname,hv] at hsome
      by_contra hout
      have hnone : ¬ (n = wErrorsIgnored ∨ n = wUnacknowledged ∨ n > 0) := hout
      simp [hnone] at hsome
    · obtain ⟨v,hoption,hasked⟩ := Option.bind_eq_some_iff.mp hn
      obtain ⟨option,hmem,hname,rfl⟩ := mem_of_optionNamed hoption
      obtain ⟨pre,-,hfits,-⟩ := hpasses.of_mem hmem
      have hsome := hfits.wtimeout hname
      rw [wtimeoutOption_eq hname,hasked,Option.bind_some] at hsome
      by_contra hneg
      have hnone : wtimeoutInRange n = none := if_pos (Int64.not_le.mp hneg)
      rw [hnone] at hsome
      cases hsome
  · rintro ⟨hw,htimeout⟩
    refine passes_iff.mpr fun pre option post h => ?_
    have hmem : option ∈ options := h ▸ List.mem_append_right pre List.mem_cons_self
    refine ⟨⟨fun hname => ?_,fun hname => ?_,fun hname => ?_⟩,fun hunfit => ?_⟩
    · obtain ⟨n,hasked⟩ := Option.isSome_iff_exists.mp (ht.wtimeout option hmem hname)
      have hoption := hd.optionNamed_of_mem hmem hname
      have hrange := htimeout n (by rw [hoption,Option.bind_some,hasked])
      rw [wtimeoutOption_eq hname,hasked,Option.bind_some,wtimeoutInRange,if_neg (Int64.not_lt.mpr hrange)]
      rfl
    · have hasked := ht.journal option hmem hname
      unfold journalOption
      rw [if_pos hname]
      cases hv : option.2 with
      | bool journal => rfl
      | _ => simp [hv,askedJournal] at hasked
    · have hasked := ht.w option hmem hname
      have hoption := hd.optionNamed_of_mem hmem hname
      unfold wOption
      rw [if_pos hname]
      cases hv : option.2 with
      | int32 n =>
        have hallowed := hw n (hoption.trans (congrArg some hv))
        have hcases : n = wErrorsIgnored ∨ n = wUnacknowledged ∨ n > 0 := hallowed
        simp [hcases]
      | utf8 s => rfl
      | _ => simp [hv,askedW] at hasked
    · obtain ⟨hname,hnone⟩ := hunfit
      have hasked := ht.safe option hmem hname
      unfold safeOption at hnone
      rw [if_pos hname] at hnone
      cases hv : option.2 with
      | bool safe => simp [hv] at hnone
      | _ => simp [hv,askedSafe] at hasked

end Resulting

section Spec
variable {Uri : Type} {M : MongocUri Uri} (hM : M.KeepsWriteConcern) {options : Doc}
  {uri : Uri} {wc : WriteConcern}

theorem WriteApplicable.askedWtimeout (h : WriteApplicable wc options) (n : Int64)
    (hn : (optionNamed options "wtimeoutms").bind askedWtimeout = some n) : 0 ≤ n := by
  have hresulting := h.wtimeout
  rwa [resultingWtimeout,hn] at hresulting

include hM

theorem MongocUri.KeepsWriteConcern.valid_givenWriteConcern (hd : KeysDistinct options)
    (ht : WellTyped options) (ha : WriteApplicable wc options) :
    WriteAccepted M (givenWriteConcern wc options) := by
  have hconflict := ha.journal
  rw [← hd.effectiveW_givenWriteConcern ht ha.w,← hd.journal_givenWriteConcern] at hconflict
  have hwtimeout : 0 ≤ (givenWriteConcern wc options).wtimeout := by
    rw [hd.wtimeout_givenWriteConcern ha.askedWtimeout]
    exact ha.wtimeout
  constructor
  · rw [← journalConflicts_iff]
    exact hconflict
  · exact (hM.isValid_iff _).mpr ⟨hconflict,hwtimeout⟩

/-- With options to apply, success is what the loop and the checks after it make it. -/
theorem applyWcOptionsToUri_ok_iff_applicable (hd : KeysDistinct options) (ht : WellTyped options)
    (hwc : M.getWriteConcern uri = some wc) (hne : options ≠ []) (uri' : Uri) :
    applyWcOptionsToUri M options uri = .ok uri' ↔
      WriteApplicable wc options ∧ uri' = M.setWriteConcern uri (givenWriteConcern wc options) := by
  rw [applyWcOptionsToUri_ok_iff hne]
  constructor
  · rintro ⟨wc',hwc',hpasses,⟨haccepted,hvalid⟩,huri⟩
    obtain rfl : wc = wc' := Option.some.inj (hwc.symm.trans hwc')
    obtain ⟨hw,htimeout⟩ := (hd.passes_write_iff ht).mp hpasses
    have hwtimeout := ((hM.isValid_iff _).mp hvalid).2
    rw [hd.wtimeout_givenWriteConcern htimeout] at hwtimeout
    refine ⟨⟨hw,hwtimeout,?_⟩,huri⟩
    rw [← hd.effectiveW_givenWriteConcern ht hw,← hd.journal_givenWriteConcern,
      journalConflicts_iff]
    exact haccepted
  · rintro ⟨ha,huri⟩
    exact ⟨wc,hwc,(hd.passes_write_iff ht).mpr ⟨ha.w,ha.askedWtimeout⟩,
      hM.valid_givenWriteConcern hd ht ha,huri⟩

/-- Options are applied exactly where there are none, or their values are in range and the
resulting journal flag goes with the resulting `w`; each part of the write concern then is the
option's, or else the URI's own, and otherwise nothing changes. -/
theorem applyWcOptionsToUri_spec (hd : KeysDistinct options) (ht : WellTyped options)
    (hwc : M.getWriteConcern uri = some wc) :
    ((∃ uri', applyWcOptionsToUri M options uri = .ok uri') ↔
      options = [] ∨ WriteApplicable wc options) ∧
    (∀ uri', applyWcOptionsToUri M options uri = .ok uri' → ∃ wc',
      M.getWriteConcern uri' = some wc' ∧ wc'.effectiveW = resultingW wc options ∧
        wc'.journal = resultingJournal wc options ∧
        wc'.wtimeout = resultingWtimeout wc options) ∧
    ∀ e, applyWcOptionsToUri M options uri = .error e →
      M.getWriteConcern (uriAfterWcOptions M options uri) = some wc := by
  have hunchanged : ∀ e, applyWcOptionsToUri M options uri = .error e →
      M.getWriteConcern (uriAfterWcOptions M options uri) = some wc := fun e he => by
    unfold uriAfterWcOptions
    rw [he]
    exact hwc
  cases options with
  | nil =>
    have hok : applyWcOptionsToUri M [] uri = .ok uri := by simp [applyWcOptionsToUri,hwc]
    refine ⟨⟨fun _ => .inl rfl,fun _ => ⟨uri,hok⟩⟩,fun uri' h => ?_,hunchanged⟩
    cases hok.symm.trans h
    exact ⟨wc,hwc,rfl,rfl,rfl⟩
  | cons option rest =>
    have hiff := applyWcOptionsToUri_ok_iff_applicable hM hd ht hwc (List.cons_ne_nil _ _)
    refine ⟨⟨?_,?_⟩,fun uri' h => ?_,hunchanged⟩
    · rintro ⟨uri',h⟩
      exact .inr ((hiff uri').mp h).1
    · rintro (hnil | ha)
      · cases hnil
      · exact ⟨_,(hiff _).mpr ⟨ha,rfl⟩⟩
    · obtain ⟨ha,rfl⟩ := (hiff uri').mp h
      have hvalid := (hM.valid_givenWriteConcern hd ht ha).2
      exact ⟨_,hM.get_set _ _ hvalid,hd.effectiveW_givenWriteConcern ht ha.w,
        hd.journal_givenWriteConcern,hd.wtimeout_givenWriteConcern ha.askedWtimeout⟩

end Spec

section Examples

/-- The checks of `mongoc_write_concern_is_valid`. -/
def WriteConcern.isValid (wc : WriteConcern) : Bool :=
  !(decide (wc.journal = some true) &&
    (decide (wc.w = wUnacknowledged) || decide (wc.w = wErrorsIgnored))) &&
    decide (0 ≤ wc.wtimeout)

def MongocUri.ofWriteConcern : MongocUri WriteConcern where
  newWithError _ := .ok ⟨-2,none,none,0⟩
  optionIsBool _ := false
  optionIsInt32 _ := false
  optionIsUtf8 _ := false
  setOptionAsBool uri _ _ := some uri
  setOptionAsInt32 uri _ _ := some uri
  setOptionAsUtf8 uri _ _ := some uri
  setUsername uri _ := some uri
  setPassword uri _ := some uri
  setAuthMechanism uri _ := some uri
  setAuthSource uri _ := some uri
  setCompressors uri _ := some uri
  setMechanismProperties uri _ := some uri
  getMechanismProperties _ := none
  getUsername _ := none
  getPassword _ := none
  getAuthMechanism _ := none
  credentialsAuthSource _ := none
  getOptionAsBool _ _ fallback := fallback
  getOptionAsUtf8 _ _ := none
  hasOption _ _ := false
  getTls _ := false
  getString _ := CString.lit "mongodb://127.0.0.1/"
  hosts _ := 1
  getReadConcern _ := some ⟨none⟩
  setReadConcern uri _ := uri
  getReadPrefs _ := some ⟨.primary,[],noMaxStaleness⟩
  setReadPrefs uri _ := uri
  readPrefsIsValid _ := true
  getWriteConcern uri := some uri
  setWriteConcern _ wc := wc
  writeConcernIsValid wc := wc.isValid
  iterAsBool v :=
    match v with
    | .bool b => b
    | _ => true
  initStatic _ := true

theorem MongocUri.keepsWriteConcern_ofWriteConcern :
    MongocUri.ofWriteConcern.KeepsWriteConcern where
  get_set _ _ _ := rfl
  isValid_iff wc := by
    rw [journalConflicts_iff]
    show wc.isValid = true ↔ _
    simp only [WriteConcern.isValid,Bool.and_eq_true,Bool.not_eq_true',Bool.and_eq_false_iff,
      Bool.or_eq_false_iff,decide_eq_true_eq,decide_eq_false_iff_not]
    tauto

/-- `w` has the last word over `safe`, and the journal flag goes with it. -/
def safeThenMajority : Doc :=
  [(CString.lit "safe",.bool false),(CString.lit "W",.utf8 (ascii "majority")),
    (CString.lit "journal",.bool true)]

theorem wellTyped_safeThenMajority : WellTyped safeThenMajority where
  safe := by decide
  w := by decide
  journal := by decide
  wtimeout := by decide

end Examples

theorem spec_safeThenMajority :
    ((∃ uri', applyWcOptionsToUri MongocUri.ofWriteConcern safeThenMajority ⟨0,none,none,5⟩ =
      .ok uri') ↔ safeThenMajority = [] ∨ WriteApplicable ⟨0,none,none,5⟩ safeThenMajority) ∧
    (∀ uri', applyWcOptionsToUri MongocUri.ofWriteConcern safeThenMajority ⟨0,none,none,5⟩ =
      .ok uri' → ∃ wc', MongocUri.ofWriteConcern.getWriteConcern uri' = some wc' ∧
        wc'.effectiveW = .number wMajority ∧ wc'.journal = some true ∧ wc'.wtimeout = 5) ∧
    ∀ e, applyWcOptionsToUri MongocUri.ofWriteConcern safeThenMajority ⟨0,none,none,5⟩ =
      .error e → MongocUri.ofWriteConcern.getWriteConcern
        (uriAfterWcOptions MongocUri.ofWriteConcern safeThenMajority ⟨0,none,none,5⟩) =
          some ⟨0,none,none,5⟩ :=
  applyWcOptionsToUri_spec MongocUri.keepsWriteConcern_ofWriteConcern (by decide +kernel)
    wellTyped_safeThenMajority rfl

/-- Without options the write concern of `?safe=false&journal=true` is not looked at. -/
theorem not_applicable_of_ok :
    KeysDistinct [] ∧ WellTyped [] ∧
    ¬ ((∃ uri', applyWcOptionsToUri MongocUri.ofWriteConcern [] ⟨0,none,some true,0⟩ = .ok uri') ↔
      WriteApplicable ⟨0,none,some true,0⟩ []) := by
  refine ⟨List.nodup_nil,⟨by simp,by simp,by simp,by simp⟩,fun h => ?_⟩
  exact (h.mp ⟨_,rfl⟩).journal ⟨rfl,.inl (by decide)⟩

end Phongo
