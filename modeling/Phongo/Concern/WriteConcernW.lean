import Mathlib.Tactic.Common
import Phongo.Concern.WriteConcernInit

/-! `w` as a PHP integer of 64 bits, which libmongoc stores in 32. -/
namespace Phongo
namespace WriteConcernObject

def UnacknowledgedInt (w : Int64) : Prop := w = 0 ∨ w = -1

section
variable {Wc : Type} (M : MongocWriteConcern Wc)

/-- The initialisation throws, over journaling only if `w` forbids it, or gives an object for
this very `w`. -/
def KeepsW (w : Int64) (journaled : Prop) (eg : Pending) (r : Option (Initialisation Wc)) : Prop :=
  (∃ wc, r = some ⟨true,some wc,eg⟩ ∧ getW M wc = reportedW w ∧
    (M.isAcknowledged wc = true ↔ ¬ UnacknowledgedInt w) ∧ ¬ (journaled ∧ UnacknowledgedInt w)) ∨
  ∃ handle e, r = some ⟨false,handle,e::eg⟩ ∧
    (e = cannotEnableJournaling → journaled ∧ UnacknowledgedInt w)

def Journaled : Rest → Prop
  | some (_,some journal) => journal.isTrue = true
  | _ => False

/-- Neither the constructor nor the initialisation from a table changes this `w`. -/
def NeverChanged (w : Int64) : Prop :=
  (∀ rest eg, KeepsW M w (Journaled rest) eg (construct M (.long w) rest eg)) ∧
    ∀ (props : Props) eg, props.findStr "w" = some (.long w) →
      KeepsW M w (props.findStr "j" = some (.bool true)) eg (initFromHash M props eg)

variable {M} {fields : Wc → WriteConcernFields}

theorem unacknowledgedInt_iff {w : Int64} (hlow : -3 ≤ w) (hup : w ≤ 2147483647) :
    UnacknowledgedInt w ↔ w.toInt32 = wUnacknowledged ∨ w.toInt32 = wErrorsIgnored := by
  have hzero : (0 : Int64) = wUnacknowledged.toInt64 := rfl
  have hone : (-1 : Int64) = wErrorsIgnored.toInt64 := rfl
  rw [UnacknowledgedInt,← toInt64_toInt32_of_le hlow hup,hzero,hone,toInt64_eq_iff,toInt64_eq_iff,
    toInt64_toInt32_of_le hlow hup]

theorem not_wAborts {w : Int64} (hlow : -3 ≤ w) (hup : w ≤ 2147483647) :
    ¬ WAborts (some (.long w)) := by
  intro h
  have hlt : w.toInt32 < wMajority := h
  have hle : (-3 : Int64).toInt ≤ w.toInt := Int64.le_iff_toInt_le.mp hlow
  rw [Int32.lt_iff_toInt_lt,← Int32.toInt_toInt64,toInt64_toInt32_of_le hlow hup] at hlt
  exact absurd hlt (Int.not_lt.mpr hle)

/-- The fields of a write concern that was made for `w`. -/
theorem kept_of_stored (hM : M.Lawful fields) {w : Int64} (hlow : -3 ≤ w) (hup : w ≤ 2147483647)
    {wc : Wc} (h : StoredAs (fields wc).toWriteConcern (some (.long w)))
    (hconflict : (fields wc).journal = some true → ¬ (fields wc).Unacknowledged) :
    getW M wc = reportedW w ∧ (M.isAcknowledged wc = true ↔ ¬ UnacknowledgedInt w) ∧
      ((fields wc).Unacknowledged ↔ UnacknowledgedInt w) := by
  have hun : (fields wc).Unacknowledged ↔ UnacknowledgedInt w := by
    rw [unacknowledgedInt_iff hlow hup]
    exact unacknowledged_iff_asks h
  refine ⟨(givenW_iff hM (w:=some (.long w)) hlow (not_wAborts hlow hup) h).mpr hup,?_,hun⟩
  rw [hM.isAcknowledged,← hun]
  exact ⟨fun hor => hor.elim id hconflict,Or.inl⟩

theorem keepsW_initFromHash (hM : M.Lawful fields) {w : Int64} (hup : w ≤ 2147483647)
    {props : Props} (hprops : props.findStr "w" = some (.long w)) (eg : Pending) :
    KeepsW M w (props.findStr "j" = some (.bool true)) eg (initFromHash M props eg) := by
  have hcase := initSteps_case hM props
  rw [initFromHash]
  generalize initSteps M props = r at hcase
  cases hcase with
  | wRefused e he hw => exact Or.inr ⟨_,e,rfl,fun h => absurd h he⟩
  | aborted hw ha =>
    rw [hprops] at hw ha
    exact absurd ha (not_wAborts hw hup)
  | wtimeoutRefused e he ha ht => exact Or.inr ⟨_,e,rfl,fun h => absurd h he⟩
  | unreadable e wc he hw ht => exact Or.inr ⟨_,e,rfl,fun h => absurd h he⟩
  | jRefused e he hw ha ht hj =>
    refine Or.inr ⟨_,e,rfl,fun h => ?_⟩
    obtain ⟨hj,hasks⟩ := he h
    rw [hprops] at hasks hw
    exact ⟨hj,(unacknowledgedInt_iff hw hup).mpr hasks⟩
  | stored wc hw ha hrefused ht hj hstored hgiven hconflict htime =>
    rw [hprops] at hw hstored
    obtain ⟨hgetW,hack,hun⟩ := kept_of_stored hM hw hup hstored hconflict
    refine Or.inl ⟨wc,rfl,hgetW,hack,?_⟩
    rintro ⟨hjournal,hunack⟩
    rw [hjournal] at hgiven
    exact hconflict hgiven (hun.mpr hunack)

theorem constructJournal_cases (hM : M.Lawful fields) (z : Zval) (wc : Wc)
    (hj : (fields wc).journal = none) :
    (constructJournal M z wc = .error (.returned cannotEnableJournaling wc) ∧ z.isTrue = true ∧
      (fields wc).Unacknowledged) ∨
    (∃ wc', constructJournal M z wc = .ok wc' ∧
      SameW (fields wc).toWriteConcern (fields wc').toWriteConcern ∧
      (fields wc').wtimeout = (fields wc).wtimeout ∧
      ((fields wc').journal = some true ∨ z.isTrue = true → ¬ (fields wc).Unacknowledged)) := by
  have hun := isUnacknowledged_iff hM wc
  unfold constructJournal
  split
  · refine Or.inr ⟨wc,rfl,⟨rfl,rfl⟩,rfl,?_⟩
    rintro (h | h)
    · exact absurd (hj.symm.trans h) (by simp)
    · exact absurd h Bool.false_ne_true
  · by_cases hc : (z.isTrue && isUnacknowledged M wc) = true
    · rw [if_pos hc]
      obtain ⟨hz,hw⟩ := (Bool.and_eq_true _ _).mp hc
      exact Or.inl ⟨rfl,hz,hun.mp hw⟩
    · rw [if_neg hc]
      refine Or.inr ⟨_,rfl,?_⟩
      rw [hM.setJournal]
      refine ⟨⟨rfl,rfl⟩,rfl,fun h hw => hc ((Bool.and_eq_true _ _).mpr ⟨?_,hun.mpr hw⟩)⟩
      exact h.elim (fun h => Option.some.inj h) id

/-- The arguments after `w` leave it as it is, and journaling goes with acknowledgement. -/
theorem constructRest_cases (hM : M.Lawful fields) (rest : Rest) (wc : Wc)
    (hj : (fields wc).journal = none) (ht : (fields wc).wtimeout = 0) :
    (∃ e wc', constructRest M rest wc = .error (.returned e wc') ∧
      (e = cannotEnableJournaling → Journaled rest ∧ (fields wc).Unacknowledged)) ∨
    (∃ wc', constructRest M rest wc = .ok wc' ∧
      SameW (fields wc).toWriteConcern (fields wc').toWriteConcern ∧ 0 ≤ (fields wc').wtimeout ∧
      ((fields wc').journal = some true ∨ Journaled rest → ¬ (fields wc).Unacknowledged)) := by
  cases rest with
  | none =>
    refine Or.inr ⟨wc,rfl,⟨rfl,rfl⟩,ht ▸ Int64.le_refl _,?_⟩
    rintro (h | h)
    · exact absurd (hj.symm.trans h) (by simp)
    · exact h.elim
  | some r =>
    obtain ⟨wtimeout,journal⟩ := r
    have hjournal : (∃ e wc', journal.elim (.ok wc) (constructJournal M · wc) =
          (.error (.returned e wc') : Init Wc Wc) ∧
          Journaled (some (wtimeout,journal)) ∧ (fields wc).Unacknowledged) ∨
        (∃ wc', journal.elim (.ok wc) (constructJournal M · wc) = (.ok wc' : Init Wc Wc) ∧
          SameW (fields wc).toWriteConcern (fields wc').toWriteConcern ∧
          (fields wc').wtimeout = (fields wc).wtimeout ∧ ((fields wc').journal = some true ∨
            Journaled (some (wtimeout,journal)) → ¬ (fields wc).Unacknowledged)) := by
      cases journal with
      | none =>
        refine Or.inr ⟨wc,rfl,⟨rfl,rfl⟩,rfl,?_⟩
        rintro (h | h)
        · exact absurd (hj.symm.trans h) (by simp)
        · exact h.elim
      | some z =>
        rcases constructJournal_cases hM z wc hj with ⟨h,hz,hw⟩ | h
        · exact Or.inl ⟨_,_,h,hz,hw⟩
        · exact Or.inr h
    rcases hjournal with ⟨e,wc',h,hboth⟩ | ⟨wc₁,h,hsame,htime,hack⟩
    · exact Or.inl ⟨e,wc',by rw [constructRest,h]; rfl,fun _ => hboth⟩
    · have hrest : constructRest M (some (wtimeout,journal)) wc = constructWtimeout M wtimeout wc₁ := by
        rw [constructRest,h]
        rfl
      rw [hrest,constructWtimeout]
      by_cases hneg : wtimeout < 0
      · rw [if_pos hneg]
        exact Or.inl ⟨_,_,rfl,fun h => absurd h (initFailure_ne (by decide))⟩
      · rw [if_neg hneg]
        have hle : 0 ≤ wtimeout := Int64.not_lt.mp hneg
        refine Or.inr ⟨_,rfl,?_⟩
        rw [hM.setWtimeout _ _ hle]
        exact ⟨⟨hsame.w,hsame.wtag⟩,hle,hack⟩

theorem keepsW_construct (hM : M.Lawful fields) {w : Int64} (hup : w ≤ 2147483647) (rest : Rest)
    (eg : Pending) : KeepsW M w (Journaled rest) eg (construct M (.long w) rest eg) := by
  rw [construct,constructSteps,constructW]
  rcases storeW_cases hM (.long w) with ⟨hw,hs | hs⟩ | ⟨hw,ha,hs⟩ | ⟨hw,ha,wc,hs,hstored,honly⟩
  · simp only [hs]
    exact Or.inr ⟨_,_,rfl,fun h => absurd h (initFailure_ne (by decide))⟩
  · simp only [hs]
    exact Or.inr ⟨_,_,rfl,fun h => absurd h (initFailure_ne (by decide))⟩
  · exact absurd ha (not_wAborts hw hup)
  · simp only [hs]
    have hasks := unacknowledgedInt_iff hw hup
    have hunw := unacknowledged_iff_asks hstored
    rcases constructRest_cases hM rest wc honly.journal honly.wtimeout with
      ⟨e,wc',h,he⟩ | ⟨wc',h,hsame,htime,hack⟩
    · refine Or.inr ⟨some wc',e,?_,fun heq => ?_⟩
      · simp [h,bind,Except.bind,Init.result]
      · obtain ⟨hj,hu⟩ := he heq
        exact ⟨hj,hasks.mpr (hunw.mp hu)⟩
    · have hstored' := hsame.storedAs hstored
      have hun : (fields wc').Unacknowledged ↔ (fields wc).Unacknowledged :=
        (unacknowledged_iff_asks hstored').trans hunw.symm
      have hconflict : (fields wc').journal = some true → ¬ (fields wc').Unacknowledged :=
        fun hj hu => hack (Or.inl hj) (hun.mp hu)
      have hvalid : M.isValid wc' = true :=
        (hM.isValid wc').mpr ⟨fun hc => hconflict hc.1 hc.2,htime⟩
      obtain ⟨hgetW,hacked,hint⟩ := kept_of_stored hM hw hup hstored' hconflict
      refine Or.inl ⟨wc',?_,hgetW,hacked,?_⟩
      · simp [h,hvalid,bind,Except.bind,Init.result]
      · rintro ⟨hj,hu⟩
        exact hack (Or.inr hj) (hun.mp (hint.mpr hu))

/-- An integer that needs more than 32 bits is reported as another one. -/
theorem not_keepsW_construct (hM : M.Lawful fields) {w : Int64} (hup : ¬ w ≤ 2147483647)
    (eg : Pending) : ¬ KeepsW M w (Journaled none) eg (construct M (.long w) none eg) := by
  have hlow : -3 ≤ w := by
    have hlt := Int64.lt_iff_toInt_lt.mp (Int64.not_le.mp hup)
    rw [Int64.le_iff_toInt_le]
    simp at hlt ⊢
    omega
  rw [construct,constructSteps,constructW]
  rcases storeW_cases hM (.long w) with ⟨hw,-⟩ | ⟨hw,ha,hs⟩ | ⟨hw,ha,wc,hs,hstored,honly⟩
  · exact absurd hlow hw
  · simp only [hs]
    rintro (⟨wc,h,-⟩ | ⟨handle,e,h,-⟩) <;> cases h
  · have hvalid : M.isValid wc = true := by
      rw [hM.isValid,honly.journal,honly.wtimeout]
      exact ⟨by simp,Int64.le_refl _⟩
    simp only [hs]
    rintro (⟨wc',h,hgetW,-⟩ | ⟨handle,e,h,-⟩)
    · simp only [constructRest,bind,Except.bind,hvalid,if_true,Init.result,Option.some.injEq,
        Initialisation.mk.injEq,true_and,and_true] at h
      subst h
      exact hup ((givenW_iff hM (w:=some (.long w)) hlow ha hstored).mp hgetW)
    · simp [constructRest,bind,Except.bind,hvalid,Init.result] at h

/-- A write concern keeps its integer `w` exactly where an `int32_t` holds it, or the checks
refuse it. -/
theorem neverChanged_iff (hM : M.Lawful fields) (w : Int64) :
    NeverChanged M w ↔ w ≤ 2147483647 := by
  constructor
  · intro h
    by_contra hup
    exact not_keepsW_construct hM hup [] (h.1 none [])
  · exact fun hup => ⟨keepsW_construct hM hup,fun props eg hprops =>
      keepsW_initFromHash hM hup hprops eg⟩

theorem neverChanged_two : NeverChanged .plain 2 :=
  (neverChanged_iff MongocWriteConcern.plain_lawful 2).mpr (by decide)

/-- 2 ^ 32 becomes 0: the write concern is unacknowledged. -/
theorem not_neverChanged : ¬ NeverChanged .plain 4294967296 := fun h =>
  not_keepsW_construct MongocWriteConcern.plain_lawful (by decide) [] (h.1 none [])

end

end WriteConcernObject
end Phongo
