import Mathlib.Tactic.Common
import Phongo.Bson.IntWidth
import Phongo.Concern.ReadPreference

/-! What every read preference keeps, however its initialisation ended. -/
namespace Phongo
open OrderedTable
namespace ReadPreferenceObject
variable {Rp : Type}

/-- What every handle keeps. -/
structure Sound (rp : ReadPrefsFields) : Prop where
  valid : rp.Valid
  tags : readPreferenceTagsAreValid rp.tags = true

/-- Classes of the application give back the documents that name them. -/
structure ClassesGiveBack (L : Libbson) (U : Userland) (rp : ReadPrefsFields) : Prop where
  tags : acceptsAll L rp.tags = true → ClassesComeBackAll L U true rp.tags
  hedge : acceptsAll L rp.hedge = true → RootClassesComeBack L U true rp.hedge

/-- The objects a program can hold: new ones and those of a Manager, on which the constructor,
`unserialize`, `__unserialize` and the `get_properties` handler are called at any time. Classes of
the application give back what is exported to the table of an object. -/
inductive Reachable (L : Libbson) (U : Userland) (M : MongocReadPrefs Rp)
    (fields : Rp → ReadPrefsFields) : ConcernObject Rp → Prop
  | createObject : Reachable L U M fields ⟨none,none⟩
  | mongoc {rp} (h : Sound (fields rp)) : Reachable L U M fields ⟨some rp,none⟩
  | construct {o toLong mode tagSets options eg} (ho : Reachable L U M fields o) :
    Reachable L U M fields { o with
      handle := (construct L U M toLong o.handle mode tagSets options eg).handle }
  | initFromHash {o props eg} (ho : Reachable L U M fields o) :
    Reachable L U M fields { o with handle := (initFromHash L U M o.handle props eg).handle }
  | getProperties {o} (ho : Reachable L U M fields o)
      (h : ∀ rp, o.handle = some rp → ClassesGiveBack L U (fields rp)) :
    Reachable L U M fields (getPropertiesHash L U M o false []).1.2

section Sound
variable {L : Libbson} {U : Userland} {M : MongocReadPrefs Rp} {fields : Rp → ReadPrefsFields}

def Step.KeepsSound (fields : Rp → ReadPrefsFields) (step : Step Rp) : Prop :=
  ∀ rp rp' eg eg', Sound (fields rp) → step rp eg = (some rp',eg') → Sound (fields rp')

theorem Sound.withTags {rp : ReadPrefsFields} {tags : Doc} (h : Sound rp)
    (htags : readPreferenceTagsAreValid tags = true) (hp : tags = [] ∨ rp.mode ≠ .primary) :
    Sound { rp with tags := tags } := by
  refine ⟨⟨fun hmode => ?_,h.valid.maxStaleness⟩,htags⟩
  exact ⟨hp.resolve_right (not_not.mpr hmode),(h.valid.primary hmode).2⟩

theorem Sound.withMaxStaleness {rp : ReadPrefsFields} {n : Int64} (h : Sound rp)
    (hn : n = noMaxStaleness ∨ 0 < n ∧ rp.mode ≠ .primary) :
    Sound { rp with maxStalenessSeconds := n } := by
  refine ⟨⟨fun hmode => ?_,hn.imp_right And.left⟩,h.tags⟩
  obtain ⟨htags,-,hhedge⟩ := h.valid.primary hmode
  exact ⟨htags,hn.resolve_right (fun hn => hn.2 hmode),hhedge⟩

theorem Sound.withHedge {rp : ReadPrefsFields} {hedge : Doc} (h : Sound rp)
    (hp : rp.mode ≠ .primary) : Sound { rp with hedge := hedge } :=
  ⟨⟨fun hmode => absurd hmode hp,h.valid.maxStaleness⟩,h.tags⟩

theorem pos_of_smallest {n : Int64} (h : ¬ n < smallestMaxStalenessSeconds) : 0 < n := by
  have hle := Int64.not_lt.mp h
  rw [Int64.le_iff_toInt_le] at hle
  have h90 : smallestMaxStalenessSeconds.toInt = 90 := rfl
  rw [Int64.lt_iff_toInt_lt]
  show (0 : ℤ) < n.toInt
  omega

section Steps
variable (hM : M.Lawful fields)
include hM

theorem sound_new (mode : ReadMode) : Sound (fields (M.new mode)) := by
  rw [hM.new]
  exact ⟨⟨fun _ => ⟨rfl,rfl,rfl⟩,Or.inl rfl⟩,rfl⟩

theorem setTagSets_keepsSound (invalid notWithPrimary : Exception) (ht : Option ℕ)
    (tagSets : List (Key × Zval)) :
    Step.KeepsSound fields (setTagSets L U M invalid notWithPrimary ht tagSets) := by
  intro rp rp' eg eg' hs h
  obtain ⟨tags,eg'',-,h⟩ := Attempt.bind_eq_some.mp h
  split at h
  · cases h
  · rename_i hvalid
    split at h
    · cases h
    · rename_i hp
      cases h
      rw [hM.setTags]
      refine hs.withTags (not_not.mp hvalid) ?_
      rw [not_and_or,not_not,List.isEmpty_iff,hM.getMode] at hp
      exact hp

theorem setHedgeDocument_keepsSound (notWithPrimary : Exception) (hedge : Zval) :
    Step.KeepsSound fields (setHedgeDocument L U M notWithPrimary hedge) := by
  intro rp rp' eg eg' hs h
  unfold setHedgeDocument at h
  split at h
  · cases h
  · rename_i hp
    obtain ⟨doc,eg₁,-,h⟩ := Attempt.bind_eq_some.mp h
    obtain ⟨_,eg₂,-,h⟩ := Attempt.bind_eq_some.mp h
    cases h
    rw [hM.setHedge]
    exact hs.withHedge (hM.getMode rp ▸ hp)

omit hM in
theorem pure_keepsSound : Step.KeepsSound fields pure := by
  intro rp rp' eg eg' hs h
  cases h
  exact hs

omit hM in
theorem requireValid_keepsSound : Step.KeepsSound fields (requireValid M) := by
  intro rp rp' eg eg' hs h
  unfold requireValid at h
  split at h
  · cases h
    exact hs
  · cases h

theorem setMaxStaleness_sound {rp : Rp} {n : Int64} (hs : Sound (fields rp))
    (hsmall : ¬ (n ≠ noMaxStaleness ∧ n < smallestMaxStalenessSeconds))
    (hp : ¬ (n ≠ noMaxStaleness ∧ M.getMode rp = .primary)) :
    Sound (fields (M.setMaxStalenessSeconds rp n)) := by
  rw [hM.setMaxStalenessSeconds]
  refine hs.withMaxStaleness ?_
  by_cases hn : n = noMaxStaleness
  · exact Or.inl hn
  · refine Or.inr ⟨pos_of_smallest fun h => hsmall ⟨hn,h⟩,fun h => hp ⟨hn,?_⟩⟩
    rw [hM.getMode]
    exact h

omit hM in
theorem throw_keepsSound (e : Exception) :
    Step.KeepsSound fields fun _ => Attempt.throw e := by
  intro rp rp' eg eg' _ h
  cases h

theorem initTags_keepsSound (props : Props) :
    Step.KeepsSound fields (initTags L U M props) := by
  unfold initTags
  cases props.findStr "tags" with
  | none => exact pure_keepsSound
  | some z =>
    dsimp only
    cases deref z with
    | array ht els => exact setTagSets_keepsSound hM _ _ ht els
    | _ => exact throw_keepsSound _

theorem initMaxStaleness_keepsSound (props : Props) :
    Step.KeepsSound fields (initMaxStaleness M props) := by
  unfold initMaxStaleness
  cases props.findStr "maxStalenessSeconds" with
  | none => exact pure_keepsSound
  | some z =>
    cases z with
    | long n =>
      intro rp rp' eg eg' hs h
      dsimp only at h
      split_ifs at h with hp hsmall hlarge
      · cases h
      · cases h
      · cases h
      · cases h
        exact setMaxStaleness_sound hM hs hsmall hp
    | _ => exact throw_keepsSound _

theorem hedge_keepsSound (o : Option Zval) (notWithPrimary wrongType : Exception) :
    Step.KeepsSound fields fun rp =>
      match o with
      | none => pure rp
      | some hedge =>
        if hedge.isArrayOrObject then setHedgeDocument L U M notWithPrimary hedge rp
        else Attempt.throw wrongType := by
  cases o with
  | none => exact pure_keepsSound
  | some hedge =>
    dsimp only
    split
    · exact setHedgeDocument_keepsSound hM _ hedge
    · exact throw_keepsSound _

theorem constructTags_keepsSound (tagSets : Option (List (Key × Zval))) :
    Step.KeepsSound fields (constructTags L U M tagSets) := by
  cases tagSets with
  | none => exact pure_keepsSound
  | some els => exact setTagSets_keepsSound hM _ _ _ els

theorem constructMaxStaleness_keepsSound (toLong : Zval → Int64) (options : Option Options) :
    Step.KeepsSound fields (constructMaxStaleness M toLong options) := by
  unfold constructMaxStaleness
  cases options.bind (·.fetch "maxStalenessSeconds") with
  | none => exact pure_keepsSound
  | some z =>
    intro rp rp' eg eg' hs h
    dsimp only at h
    split_ifs at h with hsmall hlarge hp
    · cases h
    · cases h
    · cases h
    · cases h
      exact setMaxStaleness_sound hM hs hsmall hp

omit hM in
/-- The handle that is left is sound, however the steps end. -/
theorem runSteps_sound {steps : List (Step Rp)}
    (h : ∀ step ∈ steps, Step.KeepsSound fields step) {rp rp' : Rp} (hs : Sound (fields rp))
    (eg : Pending) (hr : (runSteps steps rp eg).handle = some rp') : Sound (fields rp') := by
  induction steps generalizing rp eg with
  | nil =>
    obtain rfl : rp = rp' := Option.some.inj hr
    exact hs
  | cons step steps ih =>
    rw [runSteps] at hr
    split at hr
    · rename_i rp₁ eg₁ hstep
      have hs₁ := h step List.mem_cons_self rp rp₁ eg eg₁ hs hstep
      exact ih (fun step hm => h step (List.mem_cons_of_mem _ hm)) hs₁ eg₁ hr
    · obtain rfl : rp = rp' := Option.some.inj hr
      exact hs

omit hM in
theorem orThrow_new {o : Option ReadMode} {e : Exception} {rp : Rp} {eg eg' : Pending}
    (h : Attempt.orThrow e (o.map M.new) eg = (some rp,eg')) : ∃ mode, rp = M.new mode := by
  cases o with
  | none => cases h
  | some mode =>
    cases h
    exact ⟨mode,rfl⟩

omit hM in
theorem initMode_new {props : Props} {rp : Rp} {eg eg' : Pending}
    (h : initMode M props eg = (some rp,eg')) : ∃ mode, rp = M.new mode := by
  unfold initMode at h
  cases hz : props.findStr "mode" with
  | none =>
    rw [hz] at h
    cases h
  | some z =>
    rw [hz] at h
    cases z with
    | string s => exact orThrow_new h
    | _ => cases h

omit hM in
theorem constructMode_new {mode : Zval} {rp : Rp} {eg eg' : Pending}
    (h : constructMode M mode eg = (some rp,eg')) : ∃ mode, rp = M.new mode := by
  unfold constructMode at h
  cases mode with
  | long n => exact orThrow_new h
  | string s => exact orThrow_new h
  | _ => cases h

theorem initFields_keepsSound (props : Props) :
    Step.KeepsSound fields (initFields L U M props) := by
  intro rp rp' eg eg' hs h
  obtain ⟨rp₁,eg₁,h₁,h⟩ := Attempt.bind_eq_some.mp h
  obtain ⟨rp₂,eg₂,h₂,h⟩ := Attempt.bind_eq_some.mp h
  obtain ⟨rp₃,eg₃,h₃,h⟩ := Attempt.bind_eq_some.mp h
  have hs₁ := initTags_keepsSound hM props _ _ _ _ hs h₁
  have hs₂ := initMaxStaleness_keepsSound hM props _ _ _ _ hs₁ h₂
  have hs₃ := hedge_keepsSound hM (props.findStr "hedge") _ _ _ _ _ _ hs₂ h₃
  exact requireValid_keepsSound _ _ _ _ hs₃ h

/-- The handle an initialisation leaves is a sound one, or the one the object had. -/
theorem initFromHash_sound {intern : Option Rp} {props : Props} {eg : Pending} {rp : Rp}
    (hold : ∀ rp, intern = some rp → Sound (fields rp))
    (h : (initFromHash L U M intern props eg).handle = some rp) : Sound (fields rp) := by
  unfold initFromHash at h
  split at h
  · exact hold rp h
  · rename_i rp₀ eg₀ hmode
    obtain ⟨mode,rfl⟩ := initMode_new hmode
    exact initFields_keepsSound hM props _ _ _ _ (sound_new hM mode) (Prod.ext h rfl)

theorem construct_sound {toLong : Zval → Int64} {intern : Option Rp} {mode : Zval}
    {tagSets : Option (List (Key × Zval))} {options : Option Options} {eg : Pending} {rp : Rp}
    (hold : ∀ rp, intern = some rp → Sound (fields rp))
    (h : (construct L U M toLong intern mode tagSets options eg).handle = some rp) :
    Sound (fields rp) := by
  unfold construct at h
  split at h
  · exact hold rp h
  · rename_i rp₀ eg₀ hmode
    obtain ⟨mode',rfl⟩ := constructMode_new hmode
    refine runSteps_sound ?_ (sound_new hM mode') eg₀ h
    intro step hstep
    simp only [List.mem_cons,List.not_mem_nil,or_false] at hstep
    rcases hstep with rfl | rfl | rfl | rfl
    · exact constructTags_keepsSound hM tagSets
    · exact constructMaxStaleness_keepsSound hM toLong options
    · exact hedge_keepsSound hM (options.bind (·.fetch "hedge")) _ _
    · exact requireValid_keepsSound

omit hM in
theorem handle_getPropertiesHash (o : ConcernObject Rp) (isTemp : Bool) (eg : Pending) :
    (getPropertiesHash L U M o isTemp eg).1.2.handle = o.handle := by
  unfold getPropertiesHash
  split
  · exact o.handle_fill isTemp _
  · exact o.handle_fill isTemp _

theorem Reachable.sound {o : ConcernObject Rp} (h : Reachable L U M fields o) :
    ∀ rp, o.handle = some rp → Sound (fields rp) := by
  induction h with
  | createObject => exact fun rp ho => by cases ho
  | mongoc h => exact fun rp ho => Option.some.inj ho ▸ h
  | construct _ ih => exact fun rp ho => construct_sound hM ih ho
  | initFromHash _ ih => exact fun rp ho => initFromHash_sound hM ih ho
  | getProperties _ _ ih => exact fun rp ho => ih rp ((handle_getPropertiesHash _ _ _).symm.trans ho)

end Steps
end Sound

end ReadPreferenceObject
end Phongo
