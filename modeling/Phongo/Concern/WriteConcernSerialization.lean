import Mathlib.Tactic.Common
import Phongo.Concern.WriteConcernInit

/-! Serialization of write concerns. Fields that look unset are not exported, so that what is
restored from an export of nothing is a default; and the table of an object's properties keeps
those of a handle that was replaced. -/
namespace Phongo
open OrderedTable
namespace WriteConcernObject
variable {Wc : Type}

/-- What every handle keeps, a Manager's included: `w` is one the setters store, and a default
has nothing set. -/
structure Sound (wc : WriteConcernFields) : Prop where
  w : wMajority ≤ wc.w ∨ wc.w = wTag ∧ ∃ wtag, wc.wtag = some wtag ∧ wtag.bytes ≠ majority
  isDefault : wc.isDefault = true → wc.w = wDefault ∧ wc.journal = none ∧ wc.wtimeout = 0

/-- The objects a program can hold: new ones and those of a Manager, on which the constructor,
`unserialize`, `__unserialize` and the `get_properties` handler are called at any time. -/
inductive Reachable (M : MongocWriteConcern Wc) (fields : Wc → WriteConcernFields) :
    ConcernObject Wc → Prop
  | createObject : Reachable M fields ⟨none,none⟩
  | manager {wc} (h : Sound (fields wc)) : Reachable M fields ⟨some wc,none⟩
  | construct {o w rest eg r} (ho : Reachable M fields o) (h : construct M w rest eg = some r) :
    Reachable M fields { o with handle := r.handle }
  | initFromHash {o props eg r} (ho : Reachable M fields o)
    (h : initFromHash M props eg = some r) : Reachable M fields { o with handle := r.handle }
  | getProperties {o} (ho : Reachable M fields o) :
    Reachable M fields (getPropertiesHash M o false false).2

section
variable (M : MongocWriteConcern Wc) (F : SerialFormat)

/-- An initialisation without an exception gave an object that looks like `wc`. -/
structure Restored (wc : Wc) (r : Option (Initialisation Wc)) : Prop where
  looksLike : ∃ wc', r = some ⟨true,some wc',[]⟩ ∧ getW M wc' = getW M wc ∧
    getJournal M wc' = getJournal M wc ∧ M.getWtimeoutInt64 wc' = M.getWtimeoutInt64 wc ∧
    M.isDefault wc' = M.isDefault wc

/-- Each way to export the object is undone by its counterpart: `serialize`, `__serialize`, and
the properties for `__set_state`. -/
def RoundTrips (o : ConcernObject Wc) : Prop :=
  ∃ wc, o.handle = some wc ∧
    (∃ s, serialize M F o.handle = some s ∧ Restored M wc (unserialize M F s [])) ∧
    Restored M wc (initFromHash M (getPropertiesHash M o true true).1 []) ∧
    Restored M wc (initFromHash M (getPropertiesHash M o false false).1 [])

/-- The table of the object holds nothing that is not set any more. -/
def Fresh (o : ConcernObject Wc) (wc : Wc) : Prop :=
  ∀ key ∈ keys (o.properties.getD []), key ∈ keys (properties M wc .long)

/-- Nothing to export. -/
def Unset (wc : Wc) : Prop :=
  getW M wc = .null ∧ getJournal M wc = none ∧ M.getWtimeoutInt64 wc = 0

end

section Sound
variable {M : MongocWriteConcern Wc} {fields : Wc → WriteConcernFields}

def SoundExit (fields : Wc → WriteConcernFields) : Init Wc Wc → Prop
  | .ok wc | .error (.returned _ wc) => Sound (fields wc)
  | .error _ => True

theorem SoundExit.bind {r : Init Wc Wc} {f : Wc → Init Wc Wc} (hr : SoundExit fields r)
    (hf : ∀ wc, Sound (fields wc) → SoundExit fields (f wc)) : SoundExit fields (r >>= f) := by
  cases r with
  | ok wc => exact hf wc hr
  | error e => exact hr

theorem SoundExit.result {r : Init Wc Wc} (h : SoundExit fields r) {eg : Pending}
    {i : Initialisation Wc} (hi : Init.result eg r = some i) :
    ∀ wc, i.handle = some wc → Sound (fields wc) := by
  intro wc hwc
  cases r with
  | ok wc' =>
    cases hi
    exact Option.some.inj hwc ▸ h
  | error e =>
    cases e with
    | aborted => cases hi
    | failure e =>
      cases hi
      cases hwc
    | returned e wc' =>
      cases hi
      exact Option.some.inj hwc ▸ h

variable (hM : M.Lawful fields)
include hM

theorem sound_new : Sound (fields M.new) := by
  rw [hM.new]
  exact ⟨Or.inl (by decide),fun _ => ⟨rfl,rfl,rfl⟩⟩

theorem sound_setJournal {wc : Wc} (h : Sound (fields wc)) (j : Bool) :
    Sound (fields (M.setJournal wc j)) := by
  rw [hM.setJournal]
  exact ⟨h.w,fun hd => absurd hd Bool.false_ne_true⟩

theorem sound_setWtimeout {wc : Wc} (h : Sound (fields wc)) (wtimeout : Int64) :
    Sound (fields (M.setWtimeoutInt64 wc wtimeout)) := by
  by_cases hneg : wtimeout < 0
  · rw [hM.setWtimeout_of_neg wc wtimeout hneg]
    exact h
  · rw [hM.setWtimeout wc wtimeout (Int64.not_lt.mp hneg)]
    exact ⟨h.w,fun hd => absurd hd Bool.false_ne_true⟩

omit hM in
theorem HasOnlyW.sound {wc : WriteConcernFields} (h : HasOnlyW wc)
    (hw : wMajority ≤ wc.w ∨ wc.w = wTag ∧ ∃ wtag, wc.wtag = some wtag ∧ wtag.bytes ≠ majority) :
    Sound wc := ⟨hw,fun hd => ⟨h.isDefault hd,h.journal,h.wtimeout⟩⟩

theorem sound_storeW {w : Zval} {wc : Wc} (h : storeW M M.new w = .stored wc) :
    Sound (fields wc) := by
  rcases storeW_cases hM w with ⟨-,hs | hs⟩ | ⟨-,-,hs⟩ | ⟨hw,ha,wc',hs,hstored,honly⟩
  · rw [hs] at h; cases h
  · rw [hs] at h; cases h
  · rw [hs] at h; cases h
  · rw [hs] at h
    obtain rfl := StoredW.stored.inj h
    refine HasOnlyW.sound honly ?_
    cases w with
    | long n =>
      have hn : (fields wc').w = n.toInt32 := hstored
      rw [hn]
      exact Or.inl (Int32.not_lt.mp ha)
    | string s =>
      simp only [StoredAs] at hstored
      split at hstored
      · rw [hstored]
        exact Or.inl (by decide)
      · rename_i hne
        exact Or.inr ⟨hstored.1,_,hstored.2,hne⟩
    | _ => exact hw.elim

theorem sound_initSteps (props : Props) : SoundExit fields (initSteps M props) := by
  refine SoundExit.bind ?w fun wc hwc => SoundExit.bind ?wtimeout fun wc' hwc' =>
    SoundExit.bind ?j fun wc'' hwc'' => ?valid
  case w =>
    unfold initW
    split
    · exact sound_new hM
    · split
      · rename_i wc hs
        exact sound_storeW hM hs
      · trivial
      · trivial
      · trivial
  case wtimeout =>
    unfold initWtimeout
    split
    · exact hwc
    · split
      · trivial
      · exact sound_setWtimeout hM hwc _
    · split
      · exact hwc
      · exact sound_setWtimeout hM hwc _
    · trivial
  case j =>
    unfold initJ
    split
    · exact hwc'
    · split
      · trivial
      · exact sound_setJournal hM hwc' _
    · trivial
  case valid =>
    split
    · exact hwc''
    · trivial

theorem sound_constructSteps (w : Zval) (rest : Rest) :
    SoundExit fields (constructSteps M w rest) := by
  refine SoundExit.bind ?w fun wc hwc => SoundExit.bind ?rest fun wc' hwc' => ?valid
  case w =>
    unfold constructW
    dsimp only
    split
    · rename_i wc hs
      exact sound_storeW hM hs
    · trivial
    · exact sound_new hM
    · exact sound_new hM
  case rest =>
    cases rest with
    | none => exact hwc
    | some r =>
      obtain ⟨wtimeout,journal⟩ := r
      refine SoundExit.bind ?_ fun wc' hwc' => ?_
      · cases journal with
        | none => exact hwc
        | some z =>
          simp only [Option.elim]
          unfold constructJournal
          split
          · exact hwc
          · split
            · exact hwc
            · exact sound_setJournal hM hwc _
      · unfold constructWtimeout
        split
        · exact hwc'
        · exact sound_setWtimeout hM hwc' _
  case valid =>
    split
    · exact hwc'
    · exact hwc'

omit hM in
theorem handle_getPropertiesHash (o : ConcernObject Wc) (isTemp isSerialize : Bool) :
    (getPropertiesHash M o isTemp isSerialize).2.handle = o.handle :=
  o.handle_fill isTemp _

theorem Reachable.sound {o : ConcernObject Wc} (h : Reachable M fields o) :
    ∀ wc, o.handle = some wc → Sound (fields wc) := by
  induction h with
  | createObject => exact fun wc ho => by cases ho
  | manager h => exact fun wc ho => Option.some.inj ho ▸ h
  | construct _ h _ => exact (sound_constructSteps hM _ _).result h
  | initFromHash _ h _ => exact (sound_initSteps hM _).result h
  | getProperties _ ih => exact fun wc ho => ih wc ((handle_getPropertiesHash _ _ _).symm.trans ho)

/-- What the table of an object holds was exported from one of its handles. -/
theorem Reachable.exported {o : ConcernObject Wc} (h : Reachable M fields o) :
    ∀ e ∈ o.properties.getD [], ∃ wc, Sound (fields wc) ∧ e ∈ properties M wc .long := by
  induction h with
  | createObject => exact fun e he => absurd he List.not_mem_nil
  | manager _ => exact fun e he => absurd he List.not_mem_nil
  | construct _ _ ih => exact ih
  | initFromHash _ _ ih => exact ih
  | @getProperties o ho ih =>
    intro e he
    rcases mem_of_mem_updateAll he with he | he
    · exact ih e he
    · cases hhandle : o.handle with
      | none =>
        rw [hhandle] at he
        exact absurd he List.not_mem_nil
      | some wc =>
        rw [hhandle] at he
        exact ⟨wc,ho.sound hM wc hhandle,he⟩

end Sound

section Exported
variable (M : MongocWriteConcern Wc) (wc : Wc) (form : Int64 → Zval)

theorem find?_optional (o : Option Zval) (name name' : String) :
    find? (o.map (property name)).toList (.str (ascii name')) =
      if ascii name = ascii name' then o else none := by
  cases o <;> simp [find?,property]

theorem properties_eq : properties M wc form = ((valueOfW M wc).map (property "w")).toList ++
    (((getJournal M wc).map Zval.bool).map (property "j")).toList ++
    ((if M.getWtimeoutInt64 wc ≠ 0 then some (form (M.getWtimeoutInt64 wc)) else none).map
      (property "wtimeout")).toList := by
  rw [properties,Option.map_map]
  congr 1
  split <;> rfl

theorem findStr_w : (properties M wc form).findStr "w" = valueOfW M wc := by
  rw [properties_eq,Props.findStr,find?_append,find?_append,find?_optional,find?_optional,
    find?_optional,if_pos rfl,if_neg (by decide),if_neg (by decide)]
  simp

theorem findStr_j : (properties M wc form).findStr "j" = (getJournal M wc).map Zval.bool := by
  rw [properties_eq,Props.findStr,find?_append,find?_append,find?_optional,find?_optional,
    find?_optional,if_neg (by decide),if_pos rfl,if_neg (by decide)]
  simp

theorem findStr_wtimeout : (properties M wc form).findStr "wtimeout" =
    if M.getWtimeoutInt64 wc ≠ 0 then some (form (M.getWtimeoutInt64 wc)) else none := by
  rw [properties_eq,Props.findStr,find?_append,find?_append,find?_optional,find?_optional,
    find?_optional,if_neg (by decide),if_neg (by decide),if_pos rfl]
  simp

/-- The values that are exported for `w`. -/
theorem valueOfW_cases {fields : Wc → WriteConcernFields} (hM : M.Lawful fields)
    (h : Sound (fields wc)) :
    (fields wc).w = wDefault ∧ valueOfW M wc = none ∨
    (fields wc).w = wMajority ∧ valueOfW M wc = some (.string majority) ∨
    (wMajority ≤ (fields wc).w ∧ valueOfW M wc = some (.long (fields wc).w.toInt64)) ∨
    ∃ wtag : CString, (fields wc).w = wTag ∧ wtag.bytes ≠ majority ∧
      valueOfW M wc = some (.string wtag.bytes) := by
  rcases h.w with hle | ⟨hw,wtag,htag,hne⟩
  · have hne : (fields wc).w ≠ wTag := fun he => absurd (he ▸ hle) (by decide)
    rw [valueOfW,hM.getWtag,if_neg hne]
    simp only [hM.getWmajority,hM.getW,decide_eq_true_eq]
    by_cases hmajority : (fields wc).w = wMajority
    · exact Or.inr (Or.inl ⟨hmajority,if_pos hmajority⟩)
    · rw [if_neg hmajority]
      by_cases hdefault : (fields wc).w = wDefault
      · exact Or.inl ⟨hdefault,by simp [hdefault]⟩
      · exact Or.inr (Or.inr (Or.inl ⟨hle,if_pos hdefault⟩))
  · refine Or.inr (Or.inr (Or.inr ⟨wtag,hw,hne,?_⟩))
    rw [valueOfW,hM.getWtag,if_pos hw,htag]

end Exported

section Imported
variable {M : MongocWriteConcern Wc} {fields : Wc → WriteConcernFields} (hM : M.Lawful fields)
include hM

/-- An exported `w` passes the checks, survives its conversion and is what `getW()` reports. -/
theorem valueOfW_passes {wc : Wc} (h : Sound (fields wc)) :
    WAccepted (valueOfW M wc) ∧ ¬ WAborts (valueOfW M wc) ∧ WKept (valueOfW M wc) ∧
      (∀ z, GivenW z (valueOfW M wc) → z = getW M wc) ∧
      (AsksNoAcknowledgement (valueOfW M wc) → (fields wc).Unacknowledged) := by
  rcases valueOfW_cases M wc hM h with ⟨-,hv⟩ | ⟨-,hv⟩ | ⟨hle,hv⟩ | ⟨wtag,-,hne,hv⟩
  · rw [hv,getW,hv]
    exact ⟨trivial,not_false,trivial,fun z hz => hz,False.elim⟩
  · rw [hv,getW,hv]
    exact ⟨trivial,not_false,(by decide : (0 : UInt8) ∉ majority),fun z hz => hz,False.elim⟩
  · have hback : (fields wc).w.toInt64.toInt32 = (fields wc).w := by simp
    have hne : (fields wc).w ≠ wTag := fun he => absurd (he ▸ hle) (by decide)
    have hget := getW_of_ne_tag hM hne
    have hlow : -3 ≤ (fields wc).w.toInt64 := by
      rw [Int64.le_iff_toInt_le,Int32.toInt_toInt64]
      exact Int32.le_iff_toInt_le.mp hle
    have haborts : ¬ (fields wc).w.toInt64.toInt32 < wMajority := by
      rw [hback]
      exact Int32.not_lt.mpr hle
    rw [hv,hget]
    refine ⟨hlow,haborts,toInt64_le _,fun z hz => hz,fun hasks => ?_⟩
    have hun : (fields wc).w = wUnacknowledged ∨ (fields wc).w = wErrorsIgnored := by
      simpa only [AsksNoAcknowledgement,hback] using hasks
    exact hun
  · rw [hv,getW,hv]
    exact ⟨trivial,not_false,wtag.zero_notMem,fun z hz => hz,False.elim⟩

theorem wtimeout_passes {t : Int64} {form : Int64 → Zval} (ht : 0 ≤ t)
    (hform : form t = .long t ∨ form t = .string (longToStr t)) :
    let z := if t ≠ 0 then some (form t) else none
    ¬ WtimeoutRefused z ∧ ¬ WtimeoutUnreadable M z ∧ ¬ WtimeoutNegative M z ∧
      ∀ t', GivenWtimeout M t' z → t' = t := by
  have hneg : ¬ t < 0 := Int64.not_lt.mpr ht
  have hp := parseInt64_longToStr hM.strtoll t
  dsimp only
  split
  · rcases hform with hf | hf
    · rw [hf]
      exact ⟨hneg,not_false,not_false,fun t' h => h.2⟩
    · rw [hf]
      refine ⟨not_false,fun h => ?_,?_,fun t' h => ?_⟩
      · exact absurd (hp.symm.trans h) (by simp)
      · rintro ⟨t',ht',hlt⟩
        exact hneg (Option.some.inj (hp.symm.trans ht') ▸ hlt)
      · exact (Option.some.inj (hp.symm.trans h.1)).symm
  · rename_i h0
    exact ⟨not_false,not_false,not_false,fun t' h => h.trans (not_not.mp h0).symm⟩

omit hM in
theorem bind_eq_ok {r : Init Wc Wc} {f : Wc → Init Wc Wc} {wc' : Wc} (h : r >>= f = .ok wc') :
    ∃ wc, r = .ok wc ∧ f wc = .ok wc' := by
  cases r with
  | ok wc => exact ⟨wc,rfl,h⟩
  | error e => cases h

theorem isDefault_initW {props : Props} {wc : Wc} (h : initW M props M.new = .ok wc)
    (hd : (fields wc).isDefault = true) : (fields wc).w = wDefault := by
  unfold initW at h
  split at h
  · rw [← Except.ok.inj h,hM.new]
  · rename_i w _
    rcases storeW_cases hM w with ⟨-,hs | hs⟩ | ⟨-,-,hs⟩ | ⟨-,-,wc',hs,-,honly⟩
    · rw [hs] at h; cases h
    · rw [hs] at h; cases h
    · rw [hs] at h; cases h
    · rw [hs] at h
      cases h
      exact honly.isDefault hd

theorem isDefault_initWtimeout {props : Props} {wc wc' : Wc}
    (h : initWtimeout M props wc = .ok wc') (hd : (fields wc').isDefault = true) :
    wc' = wc ∧ (props.findStr "wtimeout" = none ∨
      WtimeoutNegative M (props.findStr "wtimeout")) := by
  unfold initWtimeout at h
  split at h
  · rename_i hnone
    exact ⟨(Except.ok.inj h).symm,Or.inl hnone⟩
  · split at h
    · cases h
    · rename_i t _ hneg
      rw [← Except.ok.inj h,hM.setWtimeout wc t (Int64.not_lt.mp hneg)] at hd
      cases hd
  · rename_i s hs
    split at h
    · cases h
    · rename_i t hp
      by_cases hneg : t < 0
      · rw [hM.setWtimeout_of_neg wc t hneg] at h
        exact ⟨(Except.ok.inj h).symm,Or.inr (hs ▸ ⟨t,hp,hneg⟩)⟩
      · rw [← Except.ok.inj h,hM.setWtimeout wc t (Int64.not_lt.mp hneg)] at hd
        cases hd
  · cases h

theorem isDefault_initJ {props : Props} {wc wc' : Wc} (h : initJ M props wc = .ok wc')
    (hd : (fields wc').isDefault = true) : wc' = wc ∧ props.findStr "j" = none := by
  unfold initJ at h
  split at h
  · rename_i hnone
    exact ⟨(Except.ok.inj h).symm,hnone⟩
  · split at h
    · cases h
    · rw [← Except.ok.inj h,hM.setJournal] at hd
      cases hd
  · cases h

/-- A default is left only where no field was found that sets one. -/
theorem isDefault_initSteps {props : Props} {wc : Wc} (h : initSteps M props = .ok wc)
    (hd : (fields wc).isDefault = true) :
    (fields wc).w = wDefault ∧ props.findStr "j" = none ∧
      (props.findStr "wtimeout" = none ∨ WtimeoutNegative M (props.findStr "wtimeout")) := by
  obtain ⟨wc₁,h₁,h⟩ := bind_eq_ok h
  obtain ⟨wc₂,h₂,h⟩ := bind_eq_ok h
  obtain ⟨wc₃,h₃,h⟩ := bind_eq_ok h
  have hwc : wc₃ = wc := by
    split at h
    · exact Except.ok.inj h
    · cases h
  subst hwc
  obtain ⟨rfl,hj⟩ := isDefault_initJ hM h₃ hd
  obtain ⟨rfl,ht⟩ := isDefault_initWtimeout hM h₂ hd
  exact ⟨isDefault_initW hM h₁ hd,hj,ht⟩

omit hM in
theorem initSteps_nil (hvalid : M.isValid M.new = true) : initSteps M [] = .ok M.new := by
  simp [initSteps,initW,initWtimeout,initJ,Props.findStr,find?,hvalid,bind,Except.bind]

theorem unset_iff {wc : Wc} (h : Sound (fields wc)) : Unset M wc ↔
    valueOfW M wc = none ∧ getJournal M wc = none ∧ M.getWtimeoutInt64 wc = 0 := by
  refine and_congr_left' ⟨fun hget => ?_,fun hv => by rw [getW,hv]; rfl⟩
  rcases valueOfW_cases M wc hM h with ⟨-,hv⟩ | ⟨-,hv⟩ | ⟨-,hv⟩ | ⟨wtag,-,-,hv⟩
  · exact hv
  all_goals
    rw [getW,hv] at hget
    cases hget

omit hM in
theorem properties_of_unset (wc : Wc) (form : Int64 → Zval) (hv : valueOfW M wc = none)
    (hj : getJournal M wc = none) (ht : M.getWtimeoutInt64 wc = 0) :
    properties M wc form = [] := by
  simp [properties,hv,hj,ht]

/-- What is read from the properties of a write concern is a default exactly if there are none. -/
theorem isDefault_restored_iff {wc wc' : Wc} (h : Sound (fields wc)) {form : Int64 → Zval}
    (hr : initSteps M (properties M wc form) = .ok wc') (hW : getW M wc' = getW M wc)
    (hneg : ¬ WtimeoutNegative M ((properties M wc form).findStr "wtimeout")) :
    M.isDefault wc' = true ↔ Unset M wc := by
  rw [hM.isDefault,unset_iff hM h]
  constructor
  · intro hd
    obtain ⟨hdw,hdj,hdt⟩ := isDefault_initSteps hM hr hd
    have hnull : getW M wc' = .null := by
      rw [getW_of_ne_tag hM (by rw [hdw]; decide),hdw]
      rfl
    have hunset : Unset M wc := by
      refine ⟨hW.symm.trans hnull,?_,?_⟩
      · rw [findStr_j] at hdj
        exact Option.map_eq_none_iff.mp hdj
      · rcases hdt with hdt | hdt
        · rw [findStr_wtimeout] at hdt
          by_contra h0
          rw [if_pos h0] at hdt
          cases hdt
        · exact absurd hdt hneg
    exact (unset_iff hM h).mp hunset
  · rintro ⟨hv,hj0,ht0⟩
    have hvalid : M.isValid M.new = true := by
      rw [hM.isValid,hM.new]
      exact ⟨(fun hc => by cases hc.1),Int64.le_refl _⟩
    rw [properties_of_unset wc form hv hj0 ht0,initSteps_nil hvalid] at hr
    rw [← Except.ok.inj hr,hM.new]

/-- What is restored looks like the original, and is a default exactly if nothing was exported. -/
theorem initFromHash_properties {wc : Wc} (h : Sound (fields wc)) (hvalid : M.isValid wc = true)
    {form : Int64 → Zval} (hform : ∀ t, form t = .long t ∨ form t = .string (longToStr t)) :
    ∃ wc', initFromHash M (properties M wc form) [] = some ⟨true,some wc',[]⟩ ∧
      getW M wc' = getW M wc ∧ getJournal M wc' = getJournal M wc ∧
      M.getWtimeoutInt64 wc' = M.getWtimeoutInt64 wc ∧ (M.isDefault wc' = true ↔ Unset M wc) := by
  obtain ⟨hacc,hab,hkept,hgivenW,hasks⟩ := valueOfW_passes hM h
  obtain ⟨hjournaled,htimeout⟩ := (hM.isValid wc).mp hvalid
  have htpos : 0 ≤ M.getWtimeoutInt64 wc := by
    rw [hM.getWtimeout]
    exact htimeout
  obtain ⟨hrefused,hread,hneg,hgivenT⟩ := wtimeout_passes hM htpos (hform _)
  rw [← findStr_w M wc form] at hacc hab hkept hgivenW hasks
  rw [← findStr_wtimeout M wc form] at hrefused hread hneg hgivenT
  have hj : ¬ JRefused (AsksNoAcknowledgement ((properties M wc form).findStr "w"))
      ((properties M wc form).findStr "j") := by
    rw [findStr_j,getJournal_eq hM]
    cases hjournal : (fields wc).journal with
    | none => exact not_false
    | some j =>
      rintro ⟨hj,hw⟩
      exact hjournaled ⟨hjournal.trans (congrArg some hj),hasks hw⟩
  have hcase := initSteps_case hM (properties M wc form)
  rw [initFromHash]
  generalize hr : initSteps M (properties M wc form) = r at hcase
  cases hcase with
  | wRefused e he hw => exact absurd hacc hw
  | aborted hw ha => exact absurd ha hab
  | wtimeoutRefused e he ha ht => exact absurd ht hrefused
  | unreadable e wc' he hw ht => exact absurd ht hread
  | jRefused e he hw ha ht hj' => exact absurd hj' hj
  | stored wc' hw ha hrefused' ht hj' hstored hgiven hconflict htime =>
    have hW : getW M wc' = getW M wc := hgivenW _ ((givenW_iff hM hacc hab hstored).mpr hkept)
    have hJ : getJournal M wc' = getJournal M wc := by
      rw [getJournal_eq hM wc']
      rw [findStr_j] at hgiven
      cases hjournal : getJournal M wc with
      | none =>
        rw [hjournal] at hgiven
        exact hgiven
      | some j =>
        rw [hjournal] at hgiven
        exact hgiven
    have hT : M.getWtimeoutInt64 wc' = M.getWtimeoutInt64 wc := by
      rw [hM.getWtimeout wc']
      exact hgivenT _ (htime.mp hneg)
    exact ⟨wc',rfl,hW,hJ,hT,isDefault_restored_iff hM h hr hW hneg⟩

end Imported

section RoundTrip
variable {M : MongocWriteConcern Wc} {fields : Wc → WriteConcernFields}

theorem form_portable (t : Int64) : portable t = .long t ∨ portable t = .string (longToStr t) := by
  unfold portable
  split
  · exact Or.inr rfl
  · exact Or.inl rfl

theorem keys_properties_sublist (wc : Wc) (form : Int64 → Zval) :
    (keys (properties M wc form)).Sublist
      [.str (ascii "w"),.str (ascii "j"),.str (ascii "wtimeout")] := by
  rw [properties_eq,keys_append,keys_append]
  exact ((keys_optional_sublist _ "w").append (keys_optional_sublist _ "j")).append
    (keys_optional_sublist _ "wtimeout")

theorem restores_form (F : SerialFormat) {form : Int64 → Zval}
    (hform : ∀ t, form t = .long t ∨ form t = .string (longToStr t)) (t : Int64) :
    Restores F (form t) := by
  rcases hform t with h | h <;> rw [h] <;> trivial

theorem restores_properties (hM : M.Lawful fields) (F : SerialFormat) {wc : Wc}
    (h : Sound (fields wc)) : Restores F (.array none (properties M wc portable)) := by
  have hsub := keys_properties_sublist (M:=M) wc portable
  refine ⟨rfl,hsub.nodup (by decide),fun key hkey => ?_,restoreAll_iff.mpr fun e he => ?_⟩
  · have hall : ∀ key ∈ [Key.str (ascii "w"),.str (ascii "j"),.str (ascii "wtimeout")],
        key.Normal := by decide
    exact hall key (hsub.subset hkey)
  · rw [properties_eq,List.mem_append,List.mem_append] at he
    rcases he with (he | he) | he
    · rcases valueOfW_cases M wc hM h with ⟨-,hv⟩ | ⟨-,hv⟩ | ⟨-,hv⟩ | ⟨wtag,-,-,hv⟩
      · simp [hv] at he
      all_goals
        simp only [hv,Option.map_some,Option.toList_some,List.mem_singleton] at he
        rw [he]
        trivial
    · obtain ⟨z,hz,rfl⟩ := Option.map_eq_some_iff.mp (Option.mem_toList.mp he)
      obtain ⟨j,-,rfl⟩ := Option.map_eq_some_iff.mp hz
      trivial
    · obtain ⟨z,hz,rfl⟩ := Option.map_eq_some_iff.mp (Option.mem_toList.mp he)
      split at hz
      · rw [← Option.some.inj hz]
        exact restores_form F form_portable _
      · cases hz

end RoundTrip

section Tables
variable {M : MongocWriteConcern Wc} {fields : Wc → WriteConcernFields} {o : ConcernObject Wc}
  {wc : Wc}

theorem nodup_properties (wc : Wc) (form : Int64 → Zval) : (keys (properties M wc form)).Nodup :=
  (keys_properties_sublist wc form).nodup (by decide)

theorem getPropertiesHash_temp (ho : o.handle = some wc) :
    (getPropertiesHash M o true true).1 = properties M wc portable := by
  have hself := updateAll_self _ (nodup_properties (M:=M) wc portable)
  rw [← hself]
  simp [getPropertiesHash,ConcernObject.fill,ho]

/-- The table of the object holds what is exported, and else what it held. -/
theorem findStr_getPropertiesHash (ho : o.handle = some wc) (name : String) :
    (getPropertiesHash M o false false).1.findStr name =
      ((properties M wc .long).findStr name).or ((o.properties.getD []).findStr name) := by
  have hprops : (getPropertiesHash M o false false).1 =
      updateAll (o.properties.getD []) (properties M wc .long) := by
    simp [getPropertiesHash,ConcernObject.fill,ho]
  rw [hprops]
  exact find?_updateAll _ _ (nodup_properties wc .long) _

theorem Fresh.findStr (h : Fresh M o wc) (ho : o.handle = some wc) (name : String) :
    (getPropertiesHash M o false false).1.findStr name =
      (properties M wc .long).findStr name := by
  rw [findStr_getPropertiesHash ho]
  cases hfind : (properties M wc .long).findStr name with
  | some z => rfl
  | none =>
    have hkey := (find?_eq_none _ _).mp hfind
    exact (find?_eq_none _ _).mpr fun hmem => hkey (h _ hmem)

theorem initFromHash_congr {props props' : Props} (hw : props.findStr "w" = props'.findStr "w")
    (ht : props.findStr "wtimeout" = props'.findStr "wtimeout")
    (hj : props.findStr "j" = props'.findStr "j") (eg : Pending) :
    initFromHash M props eg = initFromHash M props' eg := by
  simp only [initFromHash,initSteps,initW,initWtimeout,initJ,hw,ht,hj]

theorem mem_properties {form : Int64 → Zval} {name : String} {z : Zval} :
    property name z ∈ properties M wc form ↔ (properties M wc form).findStr name = some z := by
  constructor
  · exact find?_of_mem (nodup_properties (M:=M) wc form)
  · exact mem_of_find?_eq_some _ _ _

section Import
variable (hM : M.Lawful fields)
include hM

/-- An initialisation that restored the object got through all its checks. -/
theorem Restored.stored {props : Props} (h : Restored M wc (initFromHash M props [])) :
    ∃ wc', InitCase M fields props (.ok wc') ∧ getW M wc' = getW M wc ∧
      getJournal M wc' = getJournal M wc ∧ M.getWtimeoutInt64 wc' = M.getWtimeoutInt64 wc := by
  obtain ⟨wc',hr,hW,hJ,hT,-⟩ := h.looksLike
  refine ⟨wc',?_,hW,hJ,hT⟩
  have hcase := initSteps_case hM props
  rw [initFromHash] at hr
  cases hsteps : initSteps M props with
  | ok wc'' =>
    rw [hsteps] at hr hcase
    have heq : wc'' = wc' := by simpa [Init.result] using hr
    exact heq ▸ hcase
  | error e =>
    rw [hsteps] at hr
    cases e <;> cases hr

/-- Only a valid handle gets through the checks of the import. -/
theorem valid_of_restored (ho : o.handle = some wc)
    (h : Restored M wc (initFromHash M (getPropertiesHash M o false false).1 [])) :
    M.isValid wc = true := by
  obtain ⟨wc',hcase,-⟩ := h.stored hM
  have hfind := findStr_getPropertiesHash (M:=M) ho
  cases hcase with
  | stored _ _ _ hrefused _ hj _ _ _ _ =>
    refine (hM.isValid wc).mpr ⟨?_,?_⟩
    · rintro ⟨hjournal,hun⟩
      refine hj ?_
      have hne : (fields wc).w ≠ wTag := by
        rcases hun with hw | hw <;> rw [hw] <;> decide
      have hw : (getPropertiesHash M o false false).1.findStr "w" =
          some (.long (fields wc).w.toInt64) := by
        rw [hfind,findStr_w,valueOfW,hM.getWtag,if_neg hne]
        rcases hun with hw | hw
        · simp [hM.getWmajority,hM.getW,hw,wUnacknowledged,wMajority,wDefault]
        · simp [hM.getWmajority,hM.getW,hw,wErrorsIgnored,wMajority,wDefault]
      rw [hfind "j",findStr_j,getJournal_eq hM,hjournal,hw]
      refine ⟨rfl,?_⟩
      simpa [AsksNoAcknowledgement,WriteConcern.Unacknowledged] using hun
    · by_contra hneg
      refine hrefused ?_
      have hlt : (fields wc).wtimeout < 0 := Int64.not_le.mp hneg
      have h0 : (fields wc).wtimeout ≠ 0 := fun he => absurd (he ▸ hlt) (by decide)
      rw [hfind,findStr_wtimeout,hM.getWtimeout,if_pos h0]
      exact hlt

theorem getW_ne_null {wc : Wc} (h : Sound (fields wc)) {z : Zval} (hv : valueOfW M wc = some z) :
    getW M wc ≠ .null := by
  intro hnull
  rw [getW] at hnull
  rcases valueOfW_cases M wc hM h with ⟨-,h₀⟩ | ⟨-,h₀⟩ | ⟨-,h₀⟩ | ⟨wtag,-,-,h₀⟩
  · cases h₀.symm.trans hv
  all_goals
    rw [h₀] at hnull
    cases hnull

theorem fresh_of_restored (hr : Reachable M fields o) (ho : o.handle = some wc)
    (h : Restored M wc (initFromHash M (getPropertiesHash M o false false).1 [])) :
    Fresh M o wc := by
  obtain ⟨wc',hcase,hW,hJ,hT⟩ := h.stored hM
  intro key hkey
  by_contra hunset
  obtain ⟨z,hz⟩ : ∃ z, find? (o.properties.getD []) key = some z := by
    cases hfind : find? (o.properties.getD []) key with
    | none => exact absurd hkey ((find?_eq_none _ _).mp hfind)
    | some z => exact ⟨z,rfl⟩
  -- the value was exported from another handle
  obtain ⟨wc₀,hs₀,hexported⟩ := hr.exported hM _ (mem_of_find?_eq_some _ _ _ hz)
  have hnone := (find?_eq_none _ _).mpr hunset
  have hlooked : find? (getPropertiesHash M o false false).1 key = some z := by
    have hprops : (getPropertiesHash M o false false).1 =
        updateAll (o.properties.getD []) (properties M wc .long) := by
      simp [getPropertiesHash,ConcernObject.fill,ho]
    rw [hprops,find?_updateAll _ _ (nodup_properties wc .long),hnone,hz]
    rfl
  have hname := (keys_properties_sublist wc₀ .long).subset (List.mem_map_of_mem hexported)
  simp only [List.mem_cons,List.not_mem_nil,or_false] at hname
  cases hcase with
  | stored _ hw ha hrefused _ _ hstored hgiven _ htime =>
    rcases hname with rfl | rfl | rfl
    · have hv : valueOfW M wc₀ = some z := (findStr_w M wc₀ .long).symm.trans (mem_properties.mp hexported)
      have hunsetW : valueOfW M wc = none := (findStr_w M wc .long).symm.trans hnone
      have hlooked : (getPropertiesHash M o false false).1.findStr "w" = valueOfW M wc₀ :=
        hlooked.trans hv.symm
      obtain ⟨-,-,hkept,hgivenW,-⟩ := valueOfW_passes hM hs₀
      have hgivenW' := (givenW_iff hM hw ha hstored).mpr (hlooked ▸ hkept)
      rw [hlooked] at hgivenW'
      refine getW_ne_null hM hs₀ hv ?_
      rw [← hgivenW _ hgivenW',hW,getW,hunsetW]
      rfl
    · have hv : (getJournal M wc₀).map Zval.bool = some z :=
        (findStr_j M wc₀ .long).symm.trans (mem_properties.mp hexported)
      have hunsetJ : (getJournal M wc).map Zval.bool = none := (findStr_j M wc .long).symm.trans hnone
      obtain ⟨j,-,rfl⟩ := Option.map_eq_some_iff.mp hv
      rw [show Props.findStr _ "j" = some (.bool j) from hlooked] at hgiven
      have hjournal : getJournal M wc' = some j := (getJournal_eq hM wc').trans hgiven
      rw [hJ,Option.map_eq_none_iff.mp hunsetJ] at hjournal
      cases hjournal
    · have hv := (findStr_wtimeout M wc₀ .long).symm.trans (mem_properties.mp hexported)
      have hunsetT := (findStr_wtimeout M wc .long).symm.trans hnone
      have h0 : M.getWtimeoutInt64 wc = 0 := by
        by_contra h0
        rw [if_pos h0] at hunsetT
        cases hunsetT
      split at hv
      · rename_i h₀
        rw [show Props.findStr _ "wtimeout" = some z from hlooked,← Option.some.inj hv] at htime
        have hwtimeout : (fields wc').wtimeout = M.getWtimeoutInt64 wc₀ := (htime.mp not_false).2
        rw [← hM.getWtimeout,hT,h0] at hwtimeout
        exact h₀ hwtimeout.symm
      · cases hv

end Import
end Tables

section RoundTrip

theorem form_long (t : Int64) : Zval.long t = .long t ∨ Zval.long t = .string (longToStr t) :=
  Or.inl rfl

/-- An object comes back as it was exactly if its handle is valid, its table holds nothing that is
not set any more, and it is a default where nothing of it is exported. -/
theorem writeConcern_roundTrips_iff (hM : M.Lawful fields) (F : SerialFormat)
    {o : ConcernObject Wc} (h : Reachable M fields o) : RoundTrips M F o ↔
      ∃ wc, o.handle = some wc ∧ M.isValid wc = true ∧ Fresh M o wc ∧
        (Unset M wc → M.isDefault wc = true) := by
  constructor
  · rintro ⟨wc,ho,-,hmagic,hstate⟩
    have hsound := h.sound hM wc ho
    have hvalid := valid_of_restored hM ho hstate
    refine ⟨wc,ho,hvalid,fresh_of_restored hM h ho hstate,fun hunset => ?_⟩
    rw [getPropertiesHash_temp ho] at hmagic
    obtain ⟨wc₁,h₁,-,-,-,hd₁⟩ := hmagic.looksLike
    obtain ⟨wc₂,h₂,-,-,-,hd₂⟩ := initFromHash_properties hM hsound hvalid form_portable
    have heq : wc₁ = wc₂ := by
      have hr := h₁.symm.trans h₂
      simpa using hr
    exact hd₁ ▸ heq ▸ hd₂.mpr hunset
  · rintro ⟨wc,ho,hvalid,hfresh,hdefault⟩
    have hsound := h.sound hM wc ho
    have hunset : M.isDefault wc = true → Unset M wc := by
      rw [hM.isDefault,unset_iff hM hsound]
      intro hd
      obtain ⟨hw,hj,ht⟩ := hsound.isDefault hd
      refine ⟨?_,(getJournal_eq hM wc).trans hj,(hM.getWtimeout wc).trans ht⟩
      rw [valueOfW,hM.getWtag,hM.getWmajority,hM.getW,hw]
      rfl
    have hback : ∀ form : Int64 → Zval, (∀ t, form t = .long t ∨ form t = .string (longToStr t)) →
        Restored M wc (initFromHash M (properties M wc form) []) := fun form hform => by
      obtain ⟨wc',h',hW,hJ,hT,hd⟩ := initFromHash_properties hM hsound hvalid hform
      exact ⟨wc',h',hW,hJ,hT,Bool.eq_iff_iff.mpr (hd.trans ⟨hdefault,hunset⟩)⟩
    refine ⟨wc,ho,⟨serializeProps F (properties M wc portable),by rw [ho]; rfl,?_⟩,?_,?_⟩
    · rw [unserialize,unserializeMethod_serializeProps F className (restores_properties hM F hsound)]
      exact hback _ form_portable
    · rw [getPropertiesHash_temp ho]
      exact hback _ form_portable
    · rw [initFromHash_congr (hfresh.findStr ho "w") (hfresh.findStr ho "wtimeout")
        (hfresh.findStr ho "j")]
      exact hback _ form_long

def longTimeout : Option (Initialisation WriteConcernFields) :=
  construct .plain (.string majority) (some (5000000000,some (.bool true))) []

def constructed (r : Initialisation Wc) : ConcernObject Wc := ⟨r.handle,none⟩

/-- The properties were asked for before. -/
theorem roundTrips_longTimeout : ∃ r, longTimeout = some r ∧
    RoundTrips .plain .scalars (getPropertiesHash .plain (constructed r) false false).2 := by
  have h : longTimeout = some _ := rfl
  refine ⟨_,h,?_⟩
  refine (writeConcern_roundTrips_iff MongocWriteConcern.plain_lawful .scalars
    (.getProperties (.construct .createObject h))).mpr ⟨_,rfl,by decide,?_,fun hunset => ?_⟩
  · intro key hkey
    exact hkey
  · cases hunset.1

/-- A timeout of 0 is not exported. -/
theorem not_roundTrips_zeroTimeout :
    ∃ r, construct .plain (.long (-2)) (some (0,none)) [] = some r ∧
      ¬ RoundTrips .plain .scalars (constructed r) := by
  refine ⟨_,rfl,?_⟩
  rintro ⟨wc,hwc,-,hmagic,-⟩
  obtain ⟨wc₁,h₁,-,-,-,hd⟩ := hmagic.looksLike
  cases hwc
  cases h₁
  cases hd

end RoundTrip

end WriteConcernObject
end Phongo
