import Phongo.Manager.Uri
import Phongo.Lib.Fold

/-! What read preference and write concern options do, apart from their order. -/
namespace Phongo
open Loop

theorem CString.eqCase_false {key : CString} {s t : String} (h : key.eqCase s)
    (hne : (ascii s).map lowerByte ≠ (ascii t).map lowerByte) : key.eqCase t = false := by
  unfold CString.eqCase at h ⊢
  rw [of_decide_eq_true h]
  exact decide_eq_false hne

theorem CString.not_eqCase {key : CString} {s t : String} (h : key.eqCase s)
    (hne : (ascii s).map lowerByte ≠ (ascii t).map lowerByte) : ¬ key.eqCase t :=
  Bool.not_eq_true _ ▸ CString.eqCase_false h hne

theorem orThrow_bind_pure {α β : Type} (e : Exception) (f : α → β) (a : Option α) :
    (orThrow e a >>= fun a => pure (f a)) = orThrow e (a.map f) := by
  cases a with
  | none => rfl
  | some a => rfl

def modeOption (option : CString × BsonValue) : Option ReadMode :=
  if option.1.eqCase "readpreference" then
    match option.2 with
    | .utf8 s => readModeNamed (CString.ofBytes s)
    | _ => none
  else none

def tagsOption (initStatic : Doc → Bool) (option : CString × BsonValue) : Option Doc :=
  if option.1.eqCase "readpreferencetags" then
    match option.2 with
    | .array tags => if initStatic tags ∧ readPreferenceTagsAreValid tags then some tags else none
    | _ => none
  else none

def stalenessInRange (n : Int64) : Option Int64 :=
  if n ≠ noMaxStaleness ∧ (n < smallestMaxStalenessSeconds ∨ n > 2147483647) then none else some n

def stalenessOption (option : CString × BsonValue) : Option Int64 :=
  if option.1.eqCase "maxstalenessseconds" then
    match option.2 with
    | .int32 n => stalenessInRange n.toInt64
    | .int64 n => stalenessInRange n
    | _ => none
  else none

/-- The option is right in itself as a read preference option, or is none. -/
structure ReadFits (initStatic : Doc → Bool) (option : CString × BsonValue) : Prop where
  mode : option.1.eqCase "readpreference" → (modeOption option).isSome
  tags : option.1.eqCase "readpreferencetags" → (tagsOption initStatic option).isSome
  staleness : option.1.eqCase "maxstalenessseconds" → (stalenessOption option).isSome

def Limits (option : CString × BsonValue) : Prop :=
  ∃ n, stalenessOption option = some n ∧ n ≠ noMaxStaleness

def readAllowed (initStatic : Doc → Bool) (rp : ReadPrefs) (option : CString × BsonValue) :
    Prop :=
  ReadFits initStatic option ∧ (Limits option → rp.mode ≠ .primary)

def readEffect (initStatic : Doc → Bool) (rp : ReadPrefs) (option : CString × BsonValue) :
    ReadPrefs where
  mode := (modeOption option).getD rp.mode
  tags := (tagsOption initStatic option).getD rp.tags
  maxStalenessSeconds := (stalenessOption option).getD rp.maxStalenessSeconds

def givenReadPrefs (initStatic : Doc → Bool) (rp : ReadPrefs) (options : Doc) : ReadPrefs where
  mode := given modeOption rp.mode options
  tags := given (tagsOption initStatic) rp.tags options
  maxStalenessSeconds := given stalenessOption rp.maxStalenessSeconds options

theorem foldl_readEffect (initStatic : Doc → Bool) (rp : ReadPrefs) (options : Doc) :
    options.foldl (readEffect initStatic) rp = givenReadPrefs initStatic rp options := by
  induction options generalizing rp with
  | nil => rfl
  | cons option options ih =>
    rw [List.foldl_cons,ih]
    rfl

def maxStalenessStep (rp : ReadPrefs) (n : Int64) : Throws ReadPrefs :=
  if n ≠ noMaxStaleness ∧ n < smallestMaxStalenessSeconds then
    .error (invalidArgument "Expected maxStalenessSeconds to be >= %d, %ld given"
      [.num smallestMaxStalenessSeconds.toInt,.num n.toInt])
  else if n ≠ noMaxStaleness ∧ n > 2147483647 then
    .error (invalidArgument "Expected maxStalenessSeconds to be <= %d, %ld given"
      [.num 2147483647,.num n.toInt])
  else if n ≠ noMaxStaleness ∧ rp.mode = .primary then .error primaryConflictsWithMaxStaleness
  else .ok { rp with maxStalenessSeconds := n }

theorem maxStalenessStep_ends (rp : ReadPrefs) (n : Int64) :
    ∃ e, maxStalenessStep rp n =
      match stalenessInRange n with
      | none => .error e
      | some n =>
        if n ≠ noMaxStaleness ∧ rp.mode = .primary then .error e
        else .ok { rp with maxStalenessSeconds := n } := by
  unfold maxStalenessStep
  by_cases hlow : n ≠ noMaxStaleness ∧ n < smallestMaxStalenessSeconds
  · have hrange : stalenessInRange n = none := if_pos ⟨hlow.1,.inl hlow.2⟩
    rw [if_pos hlow,hrange]
    exact ⟨_,rfl⟩
  · rw [if_neg hlow]
    by_cases hhigh : n ≠ noMaxStaleness ∧ n > 2147483647
    · have hrange : stalenessInRange n = none := if_pos ⟨hhigh.1,.inr hhigh.2⟩
      rw [if_pos hhigh,hrange]
      exact ⟨_,rfl⟩
    · have hrange : stalenessInRange n = some n := if_neg fun h =>
        h.2.elim (fun hl => hlow ⟨h.1,hl⟩) fun hh => hhigh ⟨h.1,hh⟩
      rw [if_neg hhigh,hrange]
      exact ⟨_,rfl⟩

section
variable {Uri : Type} (M : MongocUri Uri) (rp : ReadPrefs) (key : CString) (v : BsonValue)

theorem applyRpOption_mode (h : key.eqCase "readpreference") :
    ∃ e, applyRpOption M rp (key,v) =
      orThrow e ((modeOption (key,v)).map fun mode => { rp with mode := mode }) := by
  unfold modeOption
  rw [if_pos h]
  cases v with
  | utf8 s =>
    exact ⟨invalidArgument "Unsupported %s value: '%s'"
      [.bytes key.bytes,.bytes (CString.ofBytes s).bytes],(if_pos h).trans (orThrow_bind_pure ..)⟩
  | _ => exact ⟨_,if_pos h⟩

theorem applyRpOption_tags (h : key.eqCase "readpreferencetags") :
    ∃ e, applyRpOption M rp (key,v) =
      orThrow e ((tagsOption M.initStatic (key,v)).map fun tags => { rp with tags := tags }) := by
  have hmode : ¬ key.eqCase "readpreference" := CString.not_eqCase h (by decide)
  unfold tagsOption
  rw [if_pos h]
  cases v with
  | array tags =>
    by_cases hinit : M.initStatic tags
    · by_cases hvalid : readPreferenceTagsAreValid tags
      · exact ⟨primaryConflictsWithMaxStaleness,by simp [applyRpOption,hmode,h,hinit,hvalid,orThrow]⟩
      · exact ⟨_,by simp [applyRpOption,hmode,h,hinit,hvalid]; rfl⟩
    · exact ⟨_,by simp [applyRpOption,hmode,h,hinit]; rfl⟩
  | _ => exact ⟨_,(if_neg hmode).trans (if_pos h)⟩

theorem applyRpOption_staleness (h : key.eqCase "maxstalenessseconds") :
    ∃ e, applyRpOption M rp (key,v) =
      match stalenessOption (key,v) with
      | none => .error e
      | some n =>
        if n ≠ noMaxStaleness ∧ rp.mode = .primary then .error e
        else .ok { rp with maxStalenessSeconds := n } := by
  have hmode : ¬ key.eqCase "readpreference" := CString.not_eqCase h (by decide)
  have htags : ¬ key.eqCase "readpreferencetags" := CString.not_eqCase h (by decide)
  have htail : applyRpOption M rp (key,v) = intOption key v >>= maxStalenessStep rp :=
    (if_neg hmode).trans ((if_neg htags).trans (if_pos h))
  unfold stalenessOption
  rw [if_pos h]
  cases v with
  | int32 n =>
    obtain ⟨e,he⟩ := maxStalenessStep_ends rp n.toInt64
    exact ⟨e,htail.trans he⟩
  | int64 n =>
    obtain ⟨e,he⟩ := maxStalenessStep_ends rp n
    exact ⟨e,htail.trans he⟩
  | _ => exact ⟨_,htail⟩

end

/-- The loop of `php_phongo_apply_rp_options_to_uri`. -/
theorem guarded_applyRpOption {Uri : Type} (M : MongocUri Uri) :
    Guarded (applyRpOption M) id (readAllowed M.initStatic) (readEffect M.initStatic) := by
  refine Guarded.of_cases fun rp option => ?_
  rcases option with ⟨key,v⟩
  by_cases hm : key.eqCase "readpreference"
  · obtain ⟨e,he⟩ := applyRpOption_mode M rp key v hm
    have ht : ¬ key.eqCase "readpreferencetags" := CString.not_eqCase hm (by decide)
    have hs : ¬ key.eqCase "maxstalenessseconds" := CString.not_eqCase hm (by decide)
    have htags : tagsOption M.initStatic (key,v) = none := if_neg ht
    have hstale : stalenessOption (key,v) = none := if_neg hs
    cases hmode : modeOption (key,v) with
    | none =>
      refine .inr ⟨fun hallowed => ?_,e,by rw [he,hmode]; rfl⟩
      simpa [hmode] using hallowed.1.mode hm
    | some mode =>
      refine .inl ⟨⟨⟨fun _ => by simp [hmode],fun h => absurd h ht,fun h => absurd h hs⟩,?_⟩,
        _,by rw [he,hmode]; rfl,?_⟩
      · rintro ⟨n,hn,-⟩
        simp [hstale] at hn
      · simp [readEffect,hmode,htags,hstale]
  have hmode : modeOption (key,v) = none := if_neg hm
  by_cases ht : key.eqCase "readpreferencetags"
  · obtain ⟨e,he⟩ := applyRpOption_tags M rp key v ht
    have hs : ¬ key.eqCase "maxstalenessseconds" := CString.not_eqCase ht (by decide)
    have hstale : stalenessOption (key,v) = none := if_neg hs
    cases htags : tagsOption M.initStatic (key,v) with
    | none =>
      refine .inr ⟨fun hallowed => ?_,e,by rw [he,htags]; rfl⟩
      simpa [htags] using hallowed.1.tags ht
    | some tags =>
      refine .inl ⟨⟨⟨fun h => absurd h hm,fun _ => by simp [htags],fun h => absurd h hs⟩,?_⟩,
        _,by rw [he,htags]; rfl,?_⟩
      · rintro ⟨n,hn,-⟩
        simp [hstale] at hn
      · simp [readEffect,hmode,htags,hstale]
  have htags : tagsOption M.initStatic (key,v) = none := if_neg ht
  by_cases hs : key.eqCase "maxstalenessseconds"
  · obtain ⟨e,he⟩ := applyRpOption_staleness M rp key v hs
    cases hstale : stalenessOption (key,v) with
    | none =>
      refine .inr ⟨fun hallowed => ?_,e,by rw [he,hstale]⟩
      simpa [hstale] using hallowed.1.staleness hs
    | some n =>
      rw [hstale] at he
      by_cases hn : n ≠ noMaxStaleness ∧ rp.mode = .primary
      · exact .inr ⟨fun hallowed => hallowed.2 ⟨n,hstale,hn.1⟩ hn.2,e,he.trans (if_pos hn)⟩
      · refine .inl ⟨⟨⟨fun h => absurd h hm,fun h => absurd h ht,fun _ => by simp [hstale]⟩,?_⟩,
          _,he.trans (if_neg hn),?_⟩
        · rintro ⟨n',hn',hne⟩ hprimary
          rw [hstale] at hn'
          exact hn ⟨Option.some.inj hn' ▸ hne,hprimary⟩
        · simp [readEffect,hmode,htags,hstale]
  · have hstale : stalenessOption (key,v) = none := if_neg hs
    refine .inl ⟨⟨⟨fun h => absurd h hm,fun h => absurd h ht,fun h => absurd h hs⟩,?_⟩,
      rp,(if_neg hm).trans ((if_neg ht).trans (if_neg hs)),?_⟩
    · rintro ⟨n,hn,-⟩
      simp [hstale] at hn
    · simp [readEffect,hmode,htags,hstale]

/-- The `w` that a `safe` option stands for. -/
def safeOption (option : CString × BsonValue) : Option Int32 :=
  if option.1.eqCase "safe" then
    match option.2 with
    | .bool safe => some (if safe then 1 else wUnacknowledged)
    | _ => none
  else none

def wtimeoutInRange (n : Int64) : Option Int64 := if n < 0 then none else some n

def wtimeoutOption (option : CString × BsonValue) : Option Int64 :=
  if option.1.eqCase "wtimeoutms" then
    match option.2 with
    | .int32 n => wtimeoutInRange n.toInt64
    | .int64 n => wtimeoutInRange n
    | _ => none
  else none

def journalOption (option : CString × BsonValue) : Option (Option Bool) :=
  if option.1.eqCase "journal" then
    match option.2 with
    | .bool journal => some (some journal)
    | _ => none
  else none

def wOption (option : CString × BsonValue) : Option Int32 :=
  if option.1.eqCase "w" then
    match option.2 with
    | .int32 value =>
      if value = wErrorsIgnored ∨ value = wUnacknowledged ∨ value > 0 then some value else none
    | .utf8 s => some (if (CString.ofBytes s).eqCase "majority" then wMajority else wTag)
    | _ => none
  else none

def wtagOption (option : CString × BsonValue) : Option (Option CString) :=
  if option.1.eqCase "w" then
    match option.2 with
    | .utf8 s =>
      if (CString.ofBytes s).eqCase "majority" then none else some (some (CString.ofBytes s))
    | _ => none
  else none

/-- The option is right in itself as a write concern option, or is none. -/
structure WriteFits (option : CString × BsonValue) : Prop where
  wtimeout : option.1.eqCase "wtimeoutms" → (wtimeoutOption option).isSome
  journal : option.1.eqCase "journal" → (journalOption option).isSome
  w : option.1.eqCase "w" → (wOption option).isSome

/-- A `safe` option whose value is no boolean. -/
def UnfitSafe (option : CString × BsonValue) : Prop :=
  option.1.eqCase "safe" ∧ safeOption option = none

def writeAllowed (state : WriteConcern × Bool) (option : CString × BsonValue) : Prop :=
  WriteFits option ∧ (UnfitSafe option → state.2)

def writeEffect (state : WriteConcern × Bool) (option : CString × BsonValue) :
    WriteConcern × Bool :=
  ({ w := (wOption option).getD (if state.2 then state.1.w else (safeOption option).getD state.1.w)
     wtag := (wtagOption option).getD state.1.wtag
     journal := (journalOption option).getD state.1.journal
     wtimeout := (wtimeoutOption option).getD state.1.wtimeout },
    state.2 || (wOption option).isSome)

/-- The write concern after the options: `w` counts before `safe`. -/
def givenWriteConcern (wc : WriteConcern) (options : Doc) : WriteConcern where
  w := given wOption (given safeOption wc.w options) options
  wtag := given wtagOption wc.wtag options
  journal := given journalOption wc.journal options
  wtimeout := given wtimeoutOption wc.wtimeout options

theorem foldl_writeEffect (wc : WriteConcern) (ignoreSafe : Bool) (options : Doc) :
    options.foldl writeEffect (wc,ignoreSafe) =
      ({ givenWriteConcern wc options with
          w := given wOption (if ignoreSafe then wc.w else given safeOption wc.w options) options },
        ignoreSafe || options.any fun option => (wOption option).isSome) := by
  induction options generalizing wc ignoreSafe with
  | nil => simp [givenWriteConcern,given]
  | cons option options ih =>
    rw [List.foldl_cons]
    show options.foldl writeEffect (⟨_,_,_,_⟩,_) = _
    rw [ih]
    cases hw : wOption option with
    | none => cases ignoreSafe <;> simp [givenWriteConcern,hw]
    | some w => simp [givenWriteConcern,hw]

section
variable (wc : WriteConcern) (ignoreSafe : Bool) (key : CString) (v : BsonValue)

theorem applyWcOption_safe (h : key.eqCase "safe") :
    ∃ e, applyWcOption (wc,ignoreSafe) (key,v) =
      if ignoreSafe then .ok (wc,ignoreSafe)
      else orThrow e ((safeOption (key,v)).map fun w => ({ wc with w := w },ignoreSafe)) := by
  unfold safeOption
  rw [if_pos h]
  cases v with
  | bool safe => exact ⟨primaryConflictsWithMaxStaleness,if_pos h⟩
  | _ => exact ⟨_,if_pos h⟩

def wtimeoutStep (n : Int64) : Throws (WriteConcern × Bool) :=
  if n < 0 then
    .error (invalidArgument "Expected wtimeoutMS to be >= 0, %ld given" [.num n.toInt])
  else .ok ({ wc with wtimeout := n },ignoreSafe)

theorem wtimeoutStep_ends (n : Int64) :
    ∃ e, wtimeoutStep wc ignoreSafe n = orThrow e
      ((wtimeoutInRange n).map fun wtimeout => ({ wc with wtimeout := wtimeout },ignoreSafe)) := by
  unfold wtimeoutStep wtimeoutInRange
  by_cases h : n < 0
  · rw [if_pos h,if_pos h]
    exact ⟨_,rfl⟩
  · rw [if_neg h,if_neg h]
    exact ⟨primaryConflictsWithMaxStaleness,rfl⟩

theorem applyWcOption_wtimeout (h : key.eqCase "wtimeoutms") :
    ∃ e, applyWcOption (wc,ignoreSafe) (key,v) = orThrow e ((wtimeoutOption (key,v)).map
      fun wtimeout => ({ wc with wtimeout := wtimeout },ignoreSafe)) := by
  have hsafe : ¬ key.eqCase "safe" := CString.not_eqCase h (by decide)
  have htail : applyWcOption (wc,ignoreSafe) (key,v) =
      intOption key v >>= wtimeoutStep wc ignoreSafe := (if_neg hsafe).trans (if_pos h)
  unfold wtimeoutOption
  rw [if_pos h,htail]
  cases v with
  | int32 n => exact wtimeoutStep_ends wc ignoreSafe n.toInt64
  | int64 n => exact wtimeoutStep_ends wc ignoreSafe n
  | _ => exact ⟨_,rfl⟩

theorem applyWcOption_journal (h : key.eqCase "journal") :
    ∃ e, applyWcOption (wc,ignoreSafe) (key,v) = orThrow e ((journalOption (key,v)).map
      fun journal => ({ wc with journal := journal },ignoreSafe)) := by
  have hsafe : ¬ key.eqCase "safe" := CString.not_eqCase h (by decide)
  have hwtimeout : ¬ key.eqCase "wtimeoutms" := CString.not_eqCase h (by decide)
  unfold journalOption
  rw [if_pos h]
  cases v with
  | bool journal =>
    exact ⟨primaryConflictsWithMaxStaleness,
      (if_neg hsafe).trans ((if_neg hwtimeout).trans (if_pos h))⟩
  | _ => exact ⟨_,(if_neg hsafe).trans ((if_neg hwtimeout).trans (if_pos h))⟩

theorem applyWcOption_w (h : key.eqCase "w") :
    ∃ e, applyWcOption (wc,ignoreSafe) (key,v) = orThrow e ((wOption (key,v)).map fun w =>
      ({ wc with w := w, wtag := (wtagOption (key,v)).getD wc.wtag },true)) := by
  have hsafe : ¬ key.eqCase "safe" := CString.not_eqCase h (by decide)
  have hwtimeout : ¬ key.eqCase "wtimeoutms" := CString.not_eqCase h (by decide)
  have hjournal : ¬ key.eqCase "journal" := CString.not_eqCase h (by decide)
  unfold wOption wtagOption
  rw [if_pos h,if_pos h]
  have htail : ∀ {r : Throws (WriteConcern × Bool)}, _ = r →
      applyWcOption (wc,ignoreSafe) (key,v) = r := fun hr =>
    (if_neg hsafe).trans ((if_neg hwtimeout).trans ((if_neg hjournal).trans ((if_pos h).trans hr)))
  cases v with
  | int32 value =>
    by_cases hv : value = wErrorsIgnored ∨ value = wUnacknowledged ∨ value > 0
    · exact ⟨primaryConflictsWithMaxStaleness,htail (by simp [hv]; rfl)⟩
    · exact ⟨_,htail (by simp only [if_neg hv]; rfl)⟩
  | utf8 s =>
    by_cases hs : (CString.ofBytes s).eqCase "majority"
    · exact ⟨primaryConflictsWithMaxStaleness,htail (by simp [hs]; rfl)⟩
    · exact ⟨primaryConflictsWithMaxStaleness,htail (by simp [hs]; rfl)⟩
  | _ => exact ⟨_,htail rfl⟩

end

/-- The loop of `php_phongo_apply_wc_options_to_uri`. -/
theorem guarded_applyWcOption : Guarded applyWcOption id writeAllowed writeEffect := by
  refine Guarded.of_cases fun state option => ?_
  rcases state with ⟨wc,ignoreSafe⟩
  rcases option with ⟨key,v⟩
  by_cases hs : key.eqCase "safe"
  · have ht : ¬ key.eqCase "wtimeoutms" := CString.not_eqCase hs (by decide)
    have hj : ¬ key.eqCase "journal" := CString.not_eqCase hs (by decide)
    have hw : ¬ key.eqCase "w" := CString.not_eqCase hs (by decide)
    have hfits : WriteFits (key,v) := ⟨fun h => absurd h ht,fun h => absurd h hj,fun h => absurd h hw⟩
    have heffect : writeEffect (wc,ignoreSafe) (key,v) = ({ wc with
        w := if ignoreSafe then wc.w else (safeOption (key,v)).getD wc.w },ignoreSafe) := by
      simp [writeEffect,wtimeoutOption,journalOption,wOption,wtagOption,ht,hj,hw]
    obtain ⟨e,he⟩ := applyWcOption_safe wc ignoreSafe key v hs
    rw [he]
    cases ignoreSafe with
    | true => exact .inl ⟨⟨hfits,fun _ => rfl⟩,_,rfl,heffect.symm⟩
    | false =>
      cases hsafe : safeOption (key,v) with
      | none => exact .inr ⟨fun hallowed => Bool.false_ne_true (hallowed.2 ⟨hs,hsafe⟩),e,rfl⟩
      | some w =>
        refine .inl ⟨⟨hfits,fun h => ?_⟩,_,rfl,?_⟩
        · have := h.2
          simp [hsafe] at this
        · refine Eq.trans ?_ heffect.symm
          rw [hsafe]
          rfl
  have hfit : ¬ UnfitSafe (key,v) := fun h => hs h.1
  have hsafe : safeOption (key,v) = none := if_neg hs
  by_cases ht : key.eqCase "wtimeoutms"
  · have hj : ¬ key.eqCase "journal" := CString.not_eqCase ht (by decide)
    have hw : ¬ key.eqCase "w" := CString.not_eqCase ht (by decide)
    obtain ⟨e,he⟩ := applyWcOption_wtimeout wc ignoreSafe key v ht
    rw [he]
    cases htimeout : wtimeoutOption (key,v) with
    | none =>
      refine .inr ⟨fun hallowed => ?_,e,rfl⟩
      simpa [htimeout] using hallowed.1.wtimeout ht
    | some wtimeout =>
      refine .inl ⟨⟨⟨fun _ => by simp [htimeout],fun h => absurd h hj,fun h => absurd h hw⟩,
        fun h => absurd h hfit⟩,_,rfl,?_⟩
      simp [writeEffect,hsafe,htimeout,journalOption,wOption,wtagOption,hj,hw]
  have htimeout : wtimeoutOption (key,v) = none := if_neg ht
  by_cases hj : key.eqCase "journal"
  · have hw : ¬ key.eqCase "w" := CString.not_eqCase hj (by decide)
    obtain ⟨e,he⟩ := applyWcOption_journal wc ignoreSafe key v hj
    rw [he]
    cases hjournal : journalOption (key,v) with
    | none =>
      refine .inr ⟨fun hallowed => ?_,e,rfl⟩
      simpa [hjournal] using hallowed.1.journal hj
    | some journal =>
      refine .inl ⟨⟨⟨fun h => absurd h ht,fun _ => by simp [hjournal],fun h => absurd h hw⟩,
        fun h => absurd h hfit⟩,_,rfl,?_⟩
      simp [writeEffect,hsafe,htimeout,hjournal,wOption,wtagOption,hw]
  have hjournal : journalOption (key,v) = none := if_neg hj
  by_cases hw : key.eqCase "w"
  · obtain ⟨e,he⟩ := applyWcOption_w wc ignoreSafe key v hw
    rw [he]
    cases hwoption : wOption (key,v) with
    | none =>
      refine .inr ⟨fun hallowed => ?_,e,rfl⟩
      simpa [hwoption] using hallowed.1.w hw
    | some w =>
      refine .inl ⟨⟨⟨fun h => absurd h ht,fun h => absurd h hj,fun _ => by simp [hwoption]⟩,
        fun h => absurd h hfit⟩,_,rfl,?_⟩
      simp [writeEffect,htimeout,hjournal,hwoption]
  · have hwoption : wOption (key,v) = none := if_neg hw
    have hwtag : wtagOption (key,v) = none := if_neg hw
    refine .inl ⟨⟨⟨fun h => absurd h ht,fun h => absurd h hj,fun h => absurd h hw⟩,
      fun h => absurd h hfit⟩,(wc,ignoreSafe),
      (if_neg hs).trans ((if_neg ht).trans ((if_neg hj).trans (if_neg hw))),?_⟩
    simp [writeEffect,hsafe,htimeout,hjournal,hwoption,hwtag]

end Phongo
