import Mathlib.Tactic.Common
import Phongo.Concern.WriteConcern
import Phongo.Bson.Data

/-! What `php_phongo_writeconcern_init_from_hash` makes of each field, and when it carries the
given values or cleans up. -/
namespace Phongo
namespace WriteConcernObject

/-- Values of `w` that pass the checks on it. -/
def WAccepted : Option Zval → Prop
  | none | some (.string _) => True
  | some (.long w) => -3 ≤ w
  | some _ => False

/-- An integer that `mongoc_write_concern_set_w` aborts on after its conversion. -/
def WAborts : Option Zval → Prop
  | some (.long w) => w.toInt32 < wMajority
  | _ => False

/-- An integer that the conversion to `int32_t` keeps, a string without NUL. -/
def WKept : Option Zval → Prop
  | some (.long w) => w ≤ 2147483647
  | some (.string w) => (0 : UInt8) ∉ w
  | _ => True

/-- What is stored for `w`. -/
def StoredAs (wc : WriteConcern) : Option Zval → Prop
  | none => wc.w = wDefault
  | some (.long w) => wc.w = w.toInt32
  | some (.string w) =>
    if cstr w = majority then wc.w = wMajority
    else wc.w = wTag ∧ wc.wtag = some (CString.ofBytes w)
  | some _ => False

section
variable {Wc : Type} {M : MongocWriteConcern Wc} {fields : Wc → WriteConcernFields}
  (hM : M.Lawful fields)
include hM

theorem isUnacknowledged_iff (wc : Wc) :
    isUnacknowledged M wc = true ↔ (fields wc).Unacknowledged := by
  simp [isUnacknowledged,WriteConcern.Unacknowledged,hM.getW]

omit hM in
theorem initFailure_ne {format : String} {args : List Arg}
    (h : format ≠ "Cannot enable journaling when using w = 0") :
    invalidArgument format args ≠ cannotEnableJournaling := fun he => by
  injection he with _ hformat
  exact h hformat

/-- A write concern on which `w` alone was set. -/
structure HasOnlyW (wc : WriteConcernFields) : Prop where
  journal : wc.journal = none
  wtimeout : wc.wtimeout = 0
  isDefault : wc.isDefault = true → wc.w = wDefault

theorem setW_new {w : Int32} (h : wMajority ≤ w) :
    ∃ wc, M.setW M.new w = some wc ∧ (fields wc).w = w ∧ HasOnlyW (fields wc) := by
  obtain ⟨wc,hwc,hfields,hdefault⟩ := hM.setW M.new w h
  rw [hM.new] at hfields
  refine ⟨wc,hwc,congrArg WriteConcern.w hfields,congrArg WriteConcern.journal hfields,
    congrArg WriteConcern.wtimeout hfields,fun hd => ?_⟩
  rw [congrArg WriteConcern.w hfields]
  exact (hdefault hd).1

theorem setWtag_new (wtag : CString) : (fields (M.setWtag M.new wtag)).w = wTag ∧
    (fields (M.setWtag M.new wtag)).wtag = some wtag ∧ HasOnlyW (fields (M.setWtag M.new wtag)) := by
  rw [hM.setWtag,hM.new]
  exact ⟨rfl,rfl,rfl,rfl,fun h => absurd h Bool.false_ne_true⟩

/-- What the branches on the type of `w` come to on a new write concern. -/
theorem storeW_cases (w : Zval) :
    (¬ WAccepted (some w) ∧ (storeW M M.new w = .tooSmall ∨ storeW M M.new w = .wrongType)) ∨
    (WAccepted (some w) ∧ WAborts (some w) ∧ storeW M M.new w = .aborted) ∨
    (WAccepted (some w) ∧ ¬ WAborts (some w) ∧ ∃ wc, storeW M M.new w = .stored wc ∧
      StoredAs (fields wc).toWriteConcern (some w) ∧ HasOnlyW (fields wc)) := by
  cases w with
  | long n =>
    rw [storeW]
    by_cases hn : n < -3
    · exact Or.inl ⟨Int64.not_le.mpr hn,Or.inl (if_pos hn)⟩
    · rw [if_neg hn]
      have hle : -3 ≤ n := Int64.not_lt.mp hn
      by_cases ha : n.toInt32 < wMajority
      · exact Or.inr (Or.inl ⟨hle,ha,by rw [hM.setW_of_lt _ _ ha]; rfl⟩)
      · obtain ⟨wc,hwc,hw,honly⟩ := setW_new hM (Int32.not_lt.mp ha)
        exact Or.inr (Or.inr ⟨hle,ha,wc,by rw [hwc]; rfl,hw,honly⟩)
  | string s =>
    rw [storeW]
    refine Or.inr (Or.inr ⟨trivial,not_false,?_⟩)
    simp only [StoredAs]
    split
    · obtain ⟨wc,hwc,hw,honly⟩ := setW_new hM (w:=wMajority) (by decide)
      exact ⟨wc,by rw [hwc]; rfl,hw,honly⟩
    · obtain ⟨hw,htag,honly⟩ := setWtag_new hM (CString.ofBytes s)
      exact ⟨_,rfl,⟨hw,htag⟩,honly⟩
  | _ => exact Or.inl ⟨not_false,Or.inr rfl⟩

theorem initW_cases (props : Props) :
    (¬ WAccepted (props.findStr "w") ∧
      ∃ e, initW M props M.new = .error (.failure e) ∧ e ≠ cannotEnableJournaling) ∨
    (WAccepted (props.findStr "w") ∧ WAborts (props.findStr "w") ∧
      initW M props M.new = .error .aborted) ∨
    (WAccepted (props.findStr "w") ∧ ¬ WAborts (props.findStr "w") ∧
      ∃ wc, initW M props M.new = .ok wc ∧
        StoredAs (fields wc).toWriteConcern (props.findStr "w") ∧
        (fields wc).journal = none ∧ (fields wc).wtimeout = 0) := by
  unfold initW
  cases props.findStr "w" with
  | none =>
    refine Or.inr (Or.inr ⟨trivial,not_false,M.new,rfl,?_⟩)
    rw [hM.new]
    exact ⟨rfl,rfl,rfl⟩
  | some w =>
    rcases storeW_cases hM w with ⟨hw,hs | hs⟩ | ⟨hw,ha,hs⟩ | ⟨hw,ha,wc,hs,hstored,honly⟩
    · exact Or.inl ⟨hw,_,by simp only [hs]; rfl,initFailure_ne (by decide)⟩
    · exact Or.inl ⟨hw,_,by simp only [hs]; rfl,initFailure_ne (by decide)⟩
    · exact Or.inr (Or.inl ⟨hw,ha,by simp only [hs]⟩)
    · exact Or.inr (Or.inr ⟨hw,ha,wc,by simp only [hs],hstored,honly.journal,honly.wtimeout⟩)

end

/-- Two write concerns with one `w`. -/
structure SameW (wc wc' : WriteConcern) : Prop where
  w : wc'.w = wc.w
  wtag : wc'.wtag = wc.wtag

section Wtimeout
variable {Wc : Type} (M : MongocWriteConcern Wc)

/-- Values of `wtimeout` that an exit which cleans up refuses. -/
def WtimeoutRefused : Option Zval → Prop
  | some (.long wtimeout) => wtimeout < 0
  | none | some (.string _) => False
  | some _ => True

def WtimeoutUnreadable : Option Zval → Prop
  | some (.string wtimeout) => parseInt64 M.asciiStrtoll wtimeout = none
  | _ => False

def WtimeoutNegative : Option Zval → Prop
  | some (.string wtimeout) => ∃ t, parseInt64 M.asciiStrtoll wtimeout = some t ∧ t < 0
  | _ => False

def GivenWtimeout (wtimeout : Int64) : Option Zval → Prop
  | none => wtimeout = 0
  | some (.long n) => 0 ≤ n ∧ wtimeout = n
  | some (.string s) => parseInt64 M.asciiStrtoll s = some wtimeout ∧ 0 ≤ wtimeout
  | some _ => False

variable {M} {fields : Wc → WriteConcernFields} (hM : M.Lawful fields)
include hM

theorem initWtimeout_cases (props : Props) (wc : Wc) (hwc : (fields wc).wtimeout = 0) :
    (WtimeoutRefused (props.findStr "wtimeout") ∧
      ∃ e, initWtimeout M props wc = .error (.failure e) ∧ e ≠ cannotEnableJournaling) ∨
    (WtimeoutUnreadable M (props.findStr "wtimeout") ∧
      ∃ e, initWtimeout M props wc = .error (.returned e wc) ∧ e ≠ cannotEnableJournaling) ∨
    (¬ WtimeoutRefused (props.findStr "wtimeout") ∧
      ¬ WtimeoutUnreadable M (props.findStr "wtimeout") ∧
      ∃ wc', initWtimeout M props wc = .ok wc' ∧ 0 ≤ (fields wc').wtimeout ∧
        SameW (fields wc).toWriteConcern (fields wc').toWriteConcern ∧
        (fields wc').journal = (fields wc).journal ∧
        (¬ WtimeoutNegative M (props.findStr "wtimeout") ↔
          GivenWtimeout M (fields wc').wtimeout (props.findStr "wtimeout"))) := by
  unfold initWtimeout
  cases props.findStr "wtimeout" with
  | none =>
    refine Or.inr (Or.inr ⟨not_false,not_false,wc,rfl,hwc ▸ Int64.le_refl _,⟨rfl,rfl⟩,rfl,?_⟩)
    exact iff_of_true not_false hwc
  | some z =>
    cases z with
    | long n =>
      simp only
      by_cases hn : n < 0
      · rw [if_pos hn]
        exact Or.inl ⟨hn,_,rfl,initFailure_ne (by decide)⟩
      · rw [if_neg hn]
        have hle : 0 ≤ n := Int64.not_lt.mp hn
        have hset := hM.setWtimeout wc n hle
        refine Or.inr (Or.inr ⟨hn,not_false,_,rfl,?_⟩)
        rw [hset]
        exact ⟨hle,⟨rfl,rfl⟩,rfl,iff_of_true not_false ⟨hle,rfl⟩⟩
    | string s =>
      simp only
      cases hp : parseInt64 M.asciiStrtoll s with
      | none => exact Or.inr (Or.inl ⟨hp,_,rfl,by simp [cannotEnableJournaling,invalidArgument]⟩)
      | some t =>
        have hread : ¬ WtimeoutUnreadable M (some (.string s)) := by
          simp [WtimeoutUnreadable,hp]
        refine Or.inr (Or.inr ⟨not_false,hread,_,rfl,?_⟩)
        by_cases ht : t < 0
        · rw [hM.setWtimeout_of_neg wc t ht]
          refine ⟨hwc ▸ Int64.le_refl _,⟨rfl,rfl⟩,rfl,iff_of_false (not_not.mpr ⟨t,hp,ht⟩) ?_⟩
          rintro ⟨hp',hle⟩
          rw [hp] at hp'
          exact absurd ht (Int64.not_lt.mpr (Option.some.inj hp' ▸ hle))
        · have hle : 0 ≤ t := Int64.not_lt.mp ht
          rw [hM.setWtimeout wc t hle]
          refine ⟨hle,⟨rfl,rfl⟩,rfl,iff_of_true ?_ ⟨hp,hle⟩⟩
          rintro ⟨t',hp',ht'⟩
          rw [hp] at hp'
          exact ht (Option.some.inj hp' ▸ ht')
    | _ => exact Or.inl ⟨trivial,_,rfl,initFailure_ne (by decide)⟩

end Wtimeout

section J
variable {Wc : Type} {M : MongocWriteConcern Wc} {fields : Wc → WriteConcernFields}
  (hM : M.Lawful fields)
include hM

/-- Values of `j` that are refused, beside a `w` that asks for no acknowledgement or not. -/
def JRefused (unacknowledged : Prop) : Option Zval → Prop
  | none => False
  | some (.bool j) => j = true ∧ unacknowledged
  | some _ => True

def GivenJ (journal : Option Bool) : Option Zval → Prop
  | none => journal = none
  | some (.bool j) => journal = some j
  | some _ => False

theorem initJ_cases (props : Props) (wc : Wc) (hwc : (fields wc).journal = none) :
    (JRefused (fields wc).Unacknowledged (props.findStr "j") ∧
      ∃ e, initJ M props wc = .error (.failure e) ∧ (e = cannotEnableJournaling →
        props.findStr "j" = some (.bool true) ∧ (fields wc).Unacknowledged)) ∨
    (¬ JRefused (fields wc).Unacknowledged (props.findStr "j") ∧
      ∃ wc', initJ M props wc = .ok wc' ∧
        SameW (fields wc).toWriteConcern (fields wc').toWriteConcern ∧
        (fields wc').wtimeout = (fields wc).wtimeout ∧
        GivenJ (fields wc').journal (props.findStr "j")) := by
  unfold initJ
  cases props.findStr "j" with
  | none => exact Or.inr ⟨not_false,wc,rfl,⟨rfl,rfl⟩,rfl,hwc⟩
  | some z =>
    cases z with
    | bool j =>
      simp only
      by_cases hj : (j && isUnacknowledged M wc) = true
      · rw [if_pos hj]
        obtain ⟨hj,hw⟩ := (Bool.and_eq_true _ _).mp hj
        have hun := (isUnacknowledged_iff hM wc).mp hw
        exact Or.inl ⟨⟨hj,hun⟩,_,rfl,fun _ => ⟨by rw [hj],hun⟩⟩
      · rw [if_neg hj]
        refine Or.inr ⟨?_,_,rfl,?_⟩
        · rintro ⟨hj',hw⟩
          exact hj ((Bool.and_eq_true _ _).mpr ⟨hj',(isUnacknowledged_iff hM wc).mpr hw⟩)
        · rw [hM.setJournal]
          exact ⟨⟨rfl,rfl⟩,rfl,rfl⟩
    | _ => exact Or.inl ⟨trivial,_,rfl,fun h => absurd h (initFailure_ne (by decide))⟩

end J

section Reported
variable {Wc : Type} {M : MongocWriteConcern Wc} {fields : Wc → WriteConcernFields}

/-- An integer `w` that no acknowledgement is asked for with, after its conversion. -/
def AsksNoAcknowledgement : Option Zval → Prop
  | some (.long w) => w.toInt32 = wUnacknowledged ∨ w.toInt32 = wErrorsIgnored
  | _ => False

theorem unacknowledged_iff_asks {wc : WriteConcern} {w : Option Zval} (h : StoredAs wc w) :
    wc.Unacknowledged ↔ AsksNoAcknowledgement w := by
  cases w with
  | none =>
    have hw : wc.w = wDefault := h
    simp [WriteConcern.Unacknowledged,AsksNoAcknowledgement,hw,wDefault,wUnacknowledged,
      wErrorsIgnored]
  | some z =>
    cases z with
    | long n =>
      have hw : wc.w = n.toInt32 := h
      simp [WriteConcern.Unacknowledged,AsksNoAcknowledgement,hw]
    | string s =>
      simp only [StoredAs] at h
      split at h
      · simp [WriteConcern.Unacknowledged,AsksNoAcknowledgement,h,wMajority,wUnacknowledged,
          wErrorsIgnored]
      · simp [WriteConcern.Unacknowledged,AsksNoAcknowledgement,h.1,wTag,wUnacknowledged,
          wErrorsIgnored]
    | _ => exact h.elim

/-- What `getW()` reports for an integer. -/
def reportedW (w : Int64) : Zval :=
  if w = -2 then .null else if w = -3 then .string majority else .long w

/-- The `w` that was given. -/
def GivenW (reported : Zval) : Option Zval → Prop
  | none => reported = .null
  | some (.long w) => reported = reportedW w
  | some (.string w) => reported = .string w
  | some _ => False

theorem toInt64_le (w : Int32) : w.toInt64 ≤ 2147483647 := by
  rw [Int64.le_iff_toInt_le,Int32.toInt_toInt64]
  have := w.toInt_lt
  simp
  omega

theorem toInt64_toInt32_of_le {n : Int64} (hlow : -3 ≤ n) (hup : n ≤ 2147483647) :
    n.toInt32.toInt64 = n := by
  refine toInt64_toInt32 ?_
  rintro (h | h)
  · exact absurd hup (Int64.not_le.mpr h)
  · rw [Int64.lt_iff_toInt_lt] at h
    rw [Int64.le_iff_toInt_le] at hlow
    simp at h hlow
    omega

theorem toInt64_eq_iff (v w : Int32) : v.toInt64 = w.toInt64 ↔ v = w := by
  rw [← Int64.toInt_inj,Int32.toInt_toInt64,Int32.toInt_toInt64,Int32.toInt_inj]

theorem reportedW_toInt64 (w : Int32) : reportedW w.toInt64 =
    if w = wDefault then .null else if w = wMajority then .string majority
    else .long w.toInt64 := by
  have hdefault : (-2 : Int64) = wDefault.toInt64 := rfl
  have hmajority : (-3 : Int64) = wMajority.toInt64 := rfl
  simp only [reportedW,hdefault,hmajority,toInt64_eq_iff]

theorem getW_of_ne_tag (hM : M.Lawful fields) {wc : Wc} (h : (fields wc).w ≠ wTag) :
    getW M wc = reportedW (fields wc).w.toInt64 := by
  rw [reportedW_toInt64,getW,valueOfW,hM.getWtag,if_neg h]
  simp only [hM.getWmajority,hM.getW,decide_eq_true_eq]
  by_cases hmajority : (fields wc).w = wMajority
  · simp [hmajority,wMajority,wDefault]
  · by_cases hdefault : (fields wc).w = wDefault
    · simp [hdefault,wMajority,wDefault]
    · simp [hmajority,hdefault]

theorem getW_of_tag (hM : M.Lawful fields) {wc : Wc} {wtag : CString} (h : (fields wc).w = wTag)
    (htag : (fields wc).wtag = some wtag) : getW M wc = .string wtag.bytes := by
  simp [getW,valueOfW,hM.getWtag,h,htag]

/-- `getW()` reports the given value exactly where the conversions keep it. -/
theorem givenW_iff (hM : M.Lawful fields) {wc : Wc} {w : Option Zval} (haccepted : WAccepted w)
    (haborts : ¬ WAborts w) (h : StoredAs (fields wc).toWriteConcern w) :
    GivenW (getW M wc) w ↔ WKept w := by
  cases w with
  | none =>
    have hw : (fields wc).w = wDefault := h
    have hne : (fields wc).w ≠ wTag := by rw [hw]; decide
    have hget := getW_of_ne_tag hM hne
    rw [hw] at hget
    exact iff_of_true hget trivial
  | some z =>
    cases z with
    | long n =>
      have hw : (fields wc).w = n.toInt32 := h
      have hlow : -3 ≤ n := haccepted
      have hfit : wMajority ≤ n.toInt32 := Int32.not_lt.mp haborts
      have hne : (fields wc).w ≠ wTag := by
        intro ht
        rw [hw] at ht
        rw [ht] at hfit
        exact absurd hfit (by decide)
      have hget := getW_of_ne_tag hM hne
      rw [hw] at hget
      simp only [GivenW,WKept,hget]
      constructor
      · intro heq
        by_contra hup
        have hlt : 2147483647 < n := Int64.not_le.mp hup
        have hn2 : n ≠ -2 := fun he => absurd hlt (he ▸ by decide)
        have hn3 : n ≠ -3 := fun he => absurd hlt (he ▸ by decide)
        rw [reportedW_toInt64] at heq
        simp only [reportedW,hn2,hn3,if_false] at heq
        split at heq
        · cases heq
        · split at heq
          · cases heq
          · exact hup (Zval.long.inj heq ▸ toInt64_le n.toInt32)
      · intro hup
        rw [toInt64_toInt32_of_le hlow hup]
    | string s =>
      simp only [StoredAs] at h
      simp only [GivenW,WKept,← cstr_eq_self_iff]
      by_cases hs : cstr s = majority
      · rw [if_pos hs] at h
        have hne : (fields wc).w ≠ wTag := by rw [h]; decide
        have hget := getW_of_ne_tag hM hne
        rw [h] at hget
        have hmajority : getW M wc = .string majority := hget
        rw [hmajority,hs]
        exact ⟨fun heq => Zval.string.inj heq,fun heq => congrArg Zval.string heq⟩
      · rw [if_neg hs] at h
        rw [getW_of_tag hM h.1 h.2,CString.bytes_ofBytes]
        exact ⟨fun heq => Zval.string.inj heq,fun heq => congrArg Zval.string heq⟩
    | _ => exact haccepted.elim

theorem getJournal_eq (hM : M.Lawful fields) (wc : Wc) : getJournal M wc = (fields wc).journal := by
  rw [getJournal,hM.journalIsSet,hM.getJournal]
  cases (fields wc).journal with
  | none => rfl
  | some j => cases j <;> rfl

end Reported

section Whole
variable {Wc : Type} (M : MongocWriteConcern Wc)

/-- The write concern carries what was given. -/
structure Carries (props : Props) (wc : Wc) : Prop where
  w : GivenW (getW M wc) (props.findStr "w")
  j : GivenJ (getJournal M wc) (props.findStr "j")
  wtimeout : GivenWtimeout M (M.getWtimeoutInt64 wc) (props.findStr "wtimeout")
  journaled : getJournal M wc = some true → isUnacknowledged M wc = false

/-- The initialisation succeeds with what was given, or throws and leaves the object without a
handle. -/
def CarriesOrCleansUp (props : Props) (eg : Pending) (r : Option (Initialisation Wc)) : Prop :=
  (∃ wc, r = some ⟨true,some wc,eg⟩ ∧ Carries M props wc) ∨
    ∃ e, r = some ⟨false,none,e::eg⟩

def Initialises (props : Props) : Prop :=
  let w := props.findStr "w"
  let wtimeout := props.findStr "wtimeout"
  ¬ WAccepted w ∨ ¬ WAborts w ∧ (WtimeoutRefused wtimeout ∨ ¬ WtimeoutUnreadable M wtimeout ∧
    (JRefused (AsksNoAcknowledgement w) (props.findStr "j") ∨
      WKept w ∧ ¬ WtimeoutNegative M wtimeout))

variable {M} {fields : Wc → WriteConcernFields}

theorem isValid_of_stored (hM : M.Lawful fields) {props : Props} {wc : Wc}
    (hw : StoredAs (fields wc).toWriteConcern (props.findStr "w"))
    (hj : ¬ JRefused (AsksNoAcknowledgement (props.findStr "w")) (props.findStr "j"))
    (hgiven : GivenJ (fields wc).journal (props.findStr "j"))
    (htime : 0 ≤ (fields wc).wtimeout) :
    ((fields wc).journal = some true → ¬ (fields wc).Unacknowledged) ∧ M.isValid wc = true := by
  have hconflict : (fields wc).journal = some true → ¬ (fields wc).Unacknowledged := by
    intro hjournal hun
    refine hj ?_
    cases hprop : props.findStr "j" with
    | none =>
      rw [hprop] at hgiven
      exact absurd (hjournal.symm.trans hgiven) (by simp)
    | some z =>
      rw [hprop] at hgiven
      cases z with
      | bool j =>
        have hj' : (fields wc).journal = some j := hgiven
        exact ⟨(Option.some.inj (hjournal.symm.trans hj')).symm,(unacknowledged_iff_asks hw).mp hun⟩
      | _ => exact hgiven.elim
  exact ⟨hconflict,(hM.isValid wc).mpr ⟨fun h => hconflict h.1 h.2,htime⟩⟩

/-- How the initialisation ends, by what stands in the table. -/
inductive InitCase (M : MongocWriteConcern Wc) (fields : Wc → WriteConcernFields) (props : Props) :
    Init Wc Wc → Prop
  | wRefused (e : Exception) (he : e ≠ cannotEnableJournaling)
    (hw : ¬ WAccepted (props.findStr "w")) :
    InitCase M fields props (.error (.failure e))
  | aborted (hw : WAccepted (props.findStr "w")) (ha : WAborts (props.findStr "w")) :
    InitCase M fields props (.error .aborted)
  | wtimeoutRefused (e : Exception) (he : e ≠ cannotEnableJournaling) (ha : ¬ WAborts (props.findStr "w"))
    (ht : WtimeoutRefused (props.findStr "wtimeout")) :
    InitCase M fields props (.error (.failure e))
  | unreadable (e : Exception) (wc : Wc) (he : e ≠ cannotEnableJournaling)
    (hw : WAccepted (props.findStr "w")) (ht : WtimeoutUnreadable M (props.findStr "wtimeout")) :
    InitCase M fields props (.error (.returned e wc))
  | jRefused (e : Exception) (he : e = cannotEnableJournaling →
      props.findStr "j" = some (.bool true) ∧ AsksNoAcknowledgement (props.findStr "w"))
    (hw : WAccepted (props.findStr "w")) (ha : ¬ WAborts (props.findStr "w"))
    (ht : ¬ WtimeoutUnreadable M (props.findStr "wtimeout"))
    (hj : JRefused (AsksNoAcknowledgement (props.findStr "w")) (props.findStr "j")) :
    InitCase M fields props (.error (.failure e))
  | stored (wc : Wc) (hw : WAccepted (props.findStr "w")) (ha : ¬ WAborts (props.findStr "w"))
    (hrefused : ¬ WtimeoutRefused (props.findStr "wtimeout"))
    (ht : ¬ WtimeoutUnreadable M (props.findStr "wtimeout"))
    (hj : ¬ JRefused (AsksNoAcknowledgement (props.findStr "w")) (props.findStr "j"))
    (hstored : StoredAs (fields wc).toWriteConcern (props.findStr "w"))
    (hgiven : GivenJ (fields wc).journal (props.findStr "j"))
    (hconflict : (fields wc).journal = some true → ¬ (fields wc).Unacknowledged)
    (htime : ¬ WtimeoutNegative M (props.findStr "wtimeout") ↔
      GivenWtimeout M (fields wc).wtimeout (props.findStr "wtimeout")) :
    InitCase M fields props (.ok wc)

theorem SameW.storedAs {wc wc' : WriteConcern} {w : Option Zval} (hw : SameW wc wc')
    (h : StoredAs wc w) : StoredAs wc' w := by
  cases w with
  | none => exact hw.w.trans h
  | some z =>
    cases z with
    | long n => exact hw.w.trans h
    | string s =>
      simp only [StoredAs] at h ⊢
      rw [hw.w,hw.wtag]
      exact h
    | _ => exact h

theorem initSteps_case (hM : M.Lawful fields) (props : Props) :
    InitCase M fields props (initSteps M props) := by
  rcases initW_cases hM props with ⟨hw,e,h₁,he⟩ | ⟨hw,ha,h₁⟩ | ⟨hw,ha,wc₁,h₁,hstored,hj₁,ht₁⟩
  · have h : initSteps M props = .error (.failure e) := by rw [initSteps,h₁]; rfl
    exact h ▸ .wRefused e he hw
  · have h : initSteps M props = .error .aborted := by rw [initSteps,h₁]; rfl
    exact h ▸ .aborted hw ha
  · have hrest : initSteps M props = (do
        let wc ← initWtimeout M props wc₁
        let wc ← initJ M props wc
        if M.isValid wc then .ok wc else .error (.failure notValid)) := by rw [initSteps,h₁]; rfl
    rcases initWtimeout_cases hM props wc₁ ht₁ with
      ⟨ht,e,h₂,he⟩ | ⟨ht,e,h₂,he⟩ | ⟨hrefused,ht,wc₂,h₂,hpos,hsame₂,hjournal₂,htime⟩
    · have h : initSteps M props = .error (.failure e) := by rw [hrest,h₂]; rfl
      exact h ▸ .wtimeoutRefused e he ha ht
    · have h : initSteps M props = .error (.returned e wc₁) := by rw [hrest,h₂]; rfl
      exact h ▸ .unreadable e wc₁ he hw ht
    · have hstored₂ := hsame₂.storedAs hstored
      have hj₂ : (fields wc₂).journal = none := hjournal₂.trans hj₁
      have hun := unacknowledged_iff_asks hstored₂
      rcases initJ_cases hM props wc₂ hj₂ with ⟨hj,e,h₃,he⟩ | ⟨hj,wc₃,h₃,hsame₃,htime₃,hgiven⟩
      · have h : initSteps M props = .error (.failure e) := by rw [hrest,h₂]; simp [h₃,bind,Except.bind]
        rw [propext hun] at hj he
        exact h ▸ .jRefused e he hw ha ht hj
      · rw [propext hun] at hj
        have hstored₃ := hsame₃.storedAs hstored₂
        obtain ⟨hconflict,hvalid⟩ := isValid_of_stored hM hstored₃ hj hgiven (htime₃ ▸ hpos)
        have h : initSteps M props = .ok wc₃ := by
          rw [hrest,h₂]
          simp [h₃,hvalid,bind,Except.bind]
        exact h ▸ .stored wc₃ hw ha hrefused ht hj hstored₃ hgiven hconflict (htime₃ ▸ htime)

/-- A table is refused, or carried as it is, unless its `wtimeout` cannot be read, is a negative
string, or `w` does not survive its conversion. -/
theorem carriesOrCleansUp_iff (hM : M.Lawful fields) (props : Props) (eg : Pending) :
    CarriesOrCleansUp M props eg (initFromHash M props eg) ↔ Initialises M props := by
  have hcase := initSteps_case hM props
  rw [initFromHash]
  generalize initSteps M props = r at hcase
  cases hcase with
  | wRefused e he hw => exact iff_of_true (Or.inr ⟨e,rfl⟩) (Or.inl hw)
  | aborted hw ha =>
    refine iff_of_false ?_ ?_
    · rintro (⟨wc,h,-⟩ | ⟨e,h⟩) <;> cases h
    · rintro (h | ⟨h,-⟩)
      · exact h hw
      · exact h ha
  | wtimeoutRefused e he ha ht => exact iff_of_true (Or.inr ⟨e,rfl⟩) (Or.inr ⟨ha,Or.inl ht⟩)
  | unreadable e wc he hw ht =>
    have hnot : ¬ WtimeoutRefused (props.findStr "wtimeout") := by
      intro h
      cases hp : props.findStr "wtimeout" with
      | none => simp [hp,WtimeoutUnreadable] at ht
      | some z => cases z <;> simp [hp,WtimeoutUnreadable,WtimeoutRefused] at ht h
    refine iff_of_false ?_ ?_
    · rintro (⟨wc',h,-⟩ | ⟨e',h⟩) <;> cases h
    · rintro (h | ⟨-,h | ⟨h,-⟩⟩)
      · exact h hw
      · exact hnot h
      · exact h ht
  | jRefused e he hw ha ht hj => exact iff_of_true (Or.inr ⟨e,rfl⟩) (Or.inr ⟨ha,Or.inr ⟨ht,Or.inl hj⟩⟩)
  | stored wc hw ha hrefused ht hj hstored hgiven hconflict htime =>
    have hgetW := givenW_iff hM hw ha hstored
    have hcond : Initialises M props ↔
        WKept (props.findStr "w") ∧ ¬ WtimeoutNegative M (props.findStr "wtimeout") := by
      simp [Initialises,hw,ha,hrefused,ht,hj]
    rw [hcond]
    constructor
    · rintro (⟨wc',h,hc⟩ | ⟨e,h⟩)
      · cases h
        have hwtimeout := hc.wtimeout
        rw [hM.getWtimeout] at hwtimeout
        exact ⟨hgetW.mp hc.w,htime.mpr hwtimeout⟩
      · cases h
    · rintro ⟨hkept,hneg⟩
      refine Or.inl ⟨wc,rfl,hgetW.mpr hkept,?_,?_,?_⟩
      · rw [getJournal_eq hM]
        exact hgiven
      · rw [hM.getWtimeout]
        exact htime.mp hneg
      · rw [getJournal_eq hM]
        intro hjournal
        have hn := hconflict hjournal
        rw [← isUnacknowledged_iff hM] at hn
        simpa using hn

def threeFields : Props :=
  [property "w" (.long 2),property "wtimeout" (.string (ascii "1500")),property "j" (.bool true)]

theorem carries_threeFields :
    CarriesOrCleansUp .plain threeFields [] (initFromHash .plain threeFields []) := by
  refine (carriesOrCleansUp_iff MongocWriteConcern.plain_lawful threeFields []).mpr ?_
  have haborts : ¬ (2 : Int64).toInt32 < wMajority := by decide
  have hkept : (2 : Int64) ≤ 2147483647 := by decide
  have h1500 : parseInt64 MongocWriteConcern.plain.asciiStrtoll (ascii "1500") = some 1500 := by decide
  refine Or.inr ⟨haborts,Or.inr ⟨fun h => ?_,Or.inr ⟨hkept,?_⟩⟩⟩
  · exact absurd (h1500.symm.trans h) (by simp)
  · rintro ⟨t,ht,hlt⟩
    rw [h1500] at ht
    exact absurd (Option.some.inj ht ▸ hlt) (by decide)

/-- A `wtimeout` that is not a number leaves the handle. -/
theorem not_carries_notANumber :
    ¬ CarriesOrCleansUp .plain [property "wtimeout" (.string (ascii "x"))] []
      (initFromHash .plain [property "wtimeout" (.string (ascii "x"))] []) := by
  rintro (⟨wc,h,-⟩ | ⟨e,h⟩) <;> cases h

end Whole

end WriteConcernObject
end Phongo
