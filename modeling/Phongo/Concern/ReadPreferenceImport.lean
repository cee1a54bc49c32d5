import Mathlib.Tactic.Common
import Phongo.Concern.ReadPreferenceInit

/-! What a read preference is initialised to from a table of exported values. -/
namespace Phongo
open OrderedTable
namespace ReadPreferenceObject
variable {Rp : Type}

/-- An initialisation without an exception gave an object that looks like `rp`. -/
structure Restored (M : MongocReadPrefs Rp) (rp : Rp) (r : Initialisation Rp) : Prop where
  exceptions : r.exceptions = []
  looksLike : ∃ rp', r.handle = some rp' ∧ M.getMode rp' = M.getMode rp ∧
    M.getTags rp' = M.getTags rp ∧
    M.getMaxStalenessSeconds rp' = M.getMaxStalenessSeconds rp ∧ M.getHedge rp' = M.getHedge rp

/-- A property that is there exactly where the field it is read as is set. -/
def FieldGiven {α : Type} (Reads : Zval → α → Prop) (unset : α) (property : Option Zval)
    (a : α) : Prop :=
  property = none ∧ a = unset ∨ ∃ z, property = some z ∧ Reads z a ∧ a ≠ unset

section
variable (L : Libbson) (U : Userland)

def TagsRead (z : Zval) (tags : Doc) : Prop :=
  ∃ els, z = .array none els ∧
    zvalToDoc L U (.array none (prepTagsets els)) [] = (some tags,[])

def HedgeRead (z : Zval) (hedge : Doc) : Prop :=
  z.isArrayOrObject = true ∧ zvalToDoc L U z [] = (some hedge,[])

def StalenessRead (z : Zval) (n : Int64) : Prop := z = .long n

/-- The fields that a table of exported values stands for. -/
structure Imports (props : Props) (f : ReadPrefsFields) : Prop where
  mode : props.findStr "mode" = some (.string (getModeString f.mode))
  tags : FieldGiven (TagsRead L U) [] (props.findStr "tags") f.tags
  maxStaleness : FieldGiven StalenessRead noMaxStaleness (props.findStr "maxStalenessSeconds")
    f.maxStalenessSeconds
  hedge : FieldGiven (HedgeRead L U) [] (props.findStr "hedge") f.hedge

end

theorem FieldGiven.eq_unset_iff {α : Type} {Reads : Zval → α → Prop} {unset a : α}
    {p : Option Zval} (h : FieldGiven Reads unset p a) : a = unset ↔ p = none := by
  rcases h with ⟨rfl,rfl⟩ | ⟨z,rfl,-,hne⟩
  · exact iff_of_true rfl rfl
  · exact iff_of_false hne (Option.some_ne_none z)

/-- Where the property is missing, an older one is read in its place. -/
theorem FieldGiven.or {α : Type} {Reads : Zval → α → Prop} {unset a b : α} {p q : Option Zval}
    (h : FieldGiven Reads unset p a) (hq : FieldGiven Reads unset q b) :
    ∃ c, FieldGiven Reads unset (p.or q) c ∧ ∀ a₀, (a = unset ↔ a₀ = unset) →
      (c = a₀ ↔ a = a₀ ∧ (q ≠ none → a₀ ≠ unset)) := by
  rcases h with ⟨rfl,rfl⟩ | ⟨z,rfl,hz,hne⟩
  · refine ⟨b,hq,fun a₀ ha => ?_⟩
    obtain rfl : a₀ = a := ha.mp rfl
    rw [hq.eq_unset_iff]
    simp
  · exact ⟨a,Or.inr ⟨z,rfl,hz,hne⟩,fun a₀ ha => by simp [ha.not.mp hne]⟩

/-- With nothing pending, a handle with fields `g` exactly if `c`, otherwise none. -/
def Gives (fields : Rp → ReadPrefsFields) (m : Attempt Exception Rp) (c : Prop)
    (g : ReadPrefsFields) : Prop :=
  (c ∧ ∃ rp, m [] = (some rp,[]) ∧ fields rp = g) ∨ (¬ c ∧ (m []).1 = none)

def StalenessFits (rp : ReadPrefsFields) : Prop :=
  rp.maxStalenessSeconds = noMaxStaleness ∨ rp.mode ≠ .primary ∧
    90 ≤ rp.maxStalenessSeconds ∧ rp.maxStalenessSeconds ≤ 2147483647

theorem stalenessFits_iff {rp : ReadPrefsFields} (h : rp.Valid) : StalenessFits rp ↔
    (rp.maxStalenessSeconds = noMaxStaleness ∨
      90 ≤ rp.maxStalenessSeconds ∧ rp.maxStalenessSeconds ≤ 2147483647) := by
  constructor
  · exact Or.imp_right And.right
  · rintro (hn | hrange)
    · exact Or.inl hn
    · by_cases hmode : rp.mode = .primary
      · exact Or.inl (h.primary hmode).2.1
      · exact Or.inr ⟨hmode,hrange⟩

section Imported
variable {L : Libbson} {U : Userland} {M : MongocReadPrefs Rp} {fields : Rp → ReadPrefsFields}

theorem Gives.bind {m : Attempt Exception Rp} {step : Step Rp} {c c' : Prop}
    {g g' : ReadPrefsFields} (h : Gives fields m c g)
    (hstep : ∀ rp, fields rp = g → Gives fields (step rp) c' g') :
    Gives fields (m >>= step) (c ∧ c') g' := by
  rcases h with ⟨hc,rp,hm,hg⟩ | ⟨hc,hm⟩
  · have hbind := Attempt.bind_of_some (f:=step) hm
    rcases hstep rp hg with ⟨hc',rp',hm',hg'⟩ | ⟨hc',hm'⟩
    · exact Or.inl ⟨⟨hc,hc'⟩,rp',hbind.trans hm',hg'⟩
    · exact Or.inr ⟨fun h => hc' h.2,hbind ▸ hm'⟩
  · refine Or.inr ⟨fun h => hc h.1,?_⟩
    have hbind := Attempt.bind_of_none (f:=step) (Prod.ext hm rfl : m [] = (none,(m []).2))
    rw [hbind]

theorem gives_pure {rp : Rp} {c : Prop} (hc : c) : Gives fields (pure rp) c (fields rp) :=
  Or.inl ⟨hc,rp,rfl,rfl⟩

theorem gives_throw {e : Exception} {c : Prop} {g : ReadPrefsFields} (hc : ¬ c) :
    Gives fields (Attempt.throw e) c g :=
  Or.inr ⟨hc,rfl⟩

section Steps
variable (hM : M.Lawful fields)
include hM

theorem initMode_gives {props : Props} {mode : ReadMode}
    (h : props.findStr "mode" = some (.string (getModeString mode))) :
    Gives fields (initMode M props) True ⟨⟨mode,[],noMaxStaleness⟩,[]⟩ := by
  have hnamed : readModeNamed (CString.ofBytes (getModeString mode)) = some mode := by
    cases mode <;> decide
  rw [initMode,h]
  dsimp only
  rw [hnamed,← hM.new]
  exact gives_pure trivial

theorem setTagSets_gives (invalid notWithPrimary : Exception) {els : List (Key × Zval)} {ws : Doc}
    (hws : zvalToDoc L U (.array none (prepTagsets els)) [] = (some ws,[])) (rp : Rp) :
    Gives fields (setTagSets L U M invalid notWithPrimary none els rp)
      (readPreferenceTagsAreValid ws = true ∧ (ws = [] ∨ (fields rp).mode ≠ .primary))
      { fields rp with tags := ws } := by
  have hbind : setTagSets L U M invalid notWithPrimary none els rp [] = _ :=
    Attempt.bind_of_some hws
  rw [← hM.getMode,← hM.setTags]
  by_cases hvalid : readPreferenceTagsAreValid ws = true
  · rw [if_neg (not_not.mpr hvalid)] at hbind
    by_cases hp : ¬ ws.isEmpty = true ∧ M.getMode rp = .primary
    · rw [if_pos hp] at hbind
      refine Or.inr ⟨fun hc => ?_,congrArg Prod.fst hbind⟩
      rcases hc.2 with rfl | hmode
      · exact hp.1 rfl
      · exact hmode hp.2
    · rw [if_neg hp] at hbind
      rw [not_and_or,not_not,List.isEmpty_iff] at hp
      exact Or.inl ⟨⟨hvalid,hp⟩,_,hbind,rfl⟩
  · rw [if_pos hvalid] at hbind
    exact Or.inr ⟨fun hc => hvalid hc.1,congrArg Prod.fst hbind⟩

theorem initTags_gives {props : Props} {tags : Doc}
    (h : FieldGiven (TagsRead L U) [] (props.findStr "tags") tags) {rp : Rp}
    (hnew : (fields rp).tags = []) :
    Gives fields (initTags L U M props rp) (readPreferenceTagsAreValid tags = true ∧
      (tags = [] ∨ (fields rp).mode ≠ .primary)) { fields rp with tags := tags } := by
  rcases h with ⟨hnone,rfl⟩ | ⟨z,hsome,⟨els,rfl,hws⟩,-⟩
  · have hsame : { fields rp with tags := [] } = fields rp := by rw [← hnew]
    rw [initTags,hnone,hsame]
    exact gives_pure ⟨rfl,Or.inl rfl⟩
  · rw [initTags,hsome]
    exact setTagSets_gives hM _ _ hws rp

theorem initMaxStaleness_gives {props : Props} {n : Int64}
    (h : FieldGiven StalenessRead noMaxStaleness (props.findStr "maxStalenessSeconds") n) {rp : Rp}
    (hnew : (fields rp).maxStalenessSeconds = noMaxStaleness) :
    Gives fields (initMaxStaleness M props rp)
      (StalenessFits { fields rp with maxStalenessSeconds := n })
      { fields rp with maxStalenessSeconds := n } := by
  rcases h with ⟨hnone,rfl⟩ | ⟨z,hsome,rfl,hn⟩
  · have hsame : { fields rp with maxStalenessSeconds := noMaxStaleness } = fields rp := by
      rw [← hnew]
    rw [initMaxStaleness,hnone,hsame]
    exact gives_pure (Or.inl hnew)
  · have hfits : StalenessFits { fields rp with maxStalenessSeconds := n } ↔
        (fields rp).mode ≠ .primary ∧ 90 ≤ n ∧ n ≤ 2147483647 := or_iff_right hn
    rw [initMaxStaleness,hsome,hfits,← hM.getMode,← hM.setMaxStalenessSeconds]
    dsimp only
    split_ifs with hp hsmall hlarge
    · exact gives_throw fun hc => hc.1 hp.2
    · exact gives_throw fun hc => Int64.not_lt.mpr hc.2.1 hsmall.2
    · exact gives_throw fun hc => Int64.not_lt.mpr hc.2.2 hlarge.2
    · refine gives_pure ⟨fun hmode => hp ⟨hn,hmode⟩,?_,?_⟩
      · exact Int64.not_lt.mp fun h => hsmall ⟨hn,h⟩
      · exact Int64.not_lt.mp fun h => hlarge ⟨hn,h⟩

theorem initHedge_gives {props : Props} {hedge : Doc}
    (h : FieldGiven (HedgeRead L U) [] (props.findStr "hedge") hedge) {rp : Rp}
    (hnew : (fields rp).hedge = []) :
    Gives fields (initHedge L U M props rp) (hedge = [] ∨ (fields rp).mode ≠ .primary)
      { fields rp with hedge := hedge } := by
  rcases h with ⟨hnone,rfl⟩ | ⟨z,hsome,⟨hz,hws⟩,hne⟩
  · have hsame : { fields rp with hedge := [] } = fields rp := by rw [← hnew]
    rw [initHedge,hnone,hsame]
    exact gives_pure (Or.inl rfl)
  · rw [initHedge,hsome]
    dsimp only
    rw [if_pos hz,setHedgeDocument,← hM.getMode,← hM.setHedge]
    split
    · rename_i hp
      exact gives_throw fun hc => (hc.resolve_left hne) hp
    · rename_i hp
      exact Or.inl ⟨Or.inr hp,_,Attempt.bind_of_some hws,rfl⟩

theorem requireValid_gives (rp : Rp) :
    Gives fields (requireValid M rp) (fields rp).Valid (fields rp) := by
  rw [requireValid]
  split
  · rename_i h
    exact gives_pure ((hM.isValid rp).mp h)
  · rename_i h
    exact gives_throw fun hc => h ((hM.isValid rp).mpr hc)

theorem Imports.gives {props : Props} {f : ReadPrefsFields} (h : Imports L U props f) :
    Gives fields (initMode M props >>= initFields L U M props) (True ∧
      (readPreferenceTagsAreValid f.tags = true ∧ (f.tags = [] ∨ f.mode ≠ .primary)) ∧
      StalenessFits f ∧ (f.hedge = [] ∨ f.mode ≠ .primary) ∧ f.Valid) f := by
  refine (initMode_gives hM h.mode).bind fun rp₁ h₁ => ?_
  have htags := initTags_gives (M:=M) hM h.tags (congrArg (fun f => f.tags) h₁)
  rw [h₁] at htags
  refine htags.bind fun rp₂ h₂ => ?_
  have hmax := initMaxStaleness_gives hM h.maxStaleness
    (congrArg (fun f => f.maxStalenessSeconds) h₂)
  rw [h₂] at hmax
  refine hmax.bind fun rp₃ h₃ => ?_
  have hhedge := initHedge_gives (M:=M) hM h.hedge (congrArg (fun f => f.hedge) h₃)
  rw [h₃] at hhedge
  refine hhedge.bind fun rp₄ h₄ => ?_
  have hvalid := requireValid_gives hM rp₄
  rw [h₄] at hvalid
  exact hvalid

omit hM in
theorem initFromHash_none (props : Props) (eg : Pending) :
    initFromHash L U M none props eg =
      ⟨((initMode M props >>= initFields L U M props) eg).1.isSome,
        ((initMode M props >>= initFields L U M props) eg).1,
        ((initMode M props >>= initFields L U M props) eg).2⟩ := by
  rw [initFromHash,Attempt.bind_apply]
  rcases initMode M props eg with ⟨_ | rp,eg'⟩ <;> rfl

/-- What is initialised from a table is the original exactly if the table stands for the fields of
the original, and its maxStalenessSeconds pass the checks. -/
theorem Imports.restored_iff {rp : Rp} (hs : Sound (fields rp)) {props : Props}
    {f : ReadPrefsFields} (h : Imports L U props f) (hmode : f.mode = (fields rp).mode) :
    Restored M rp (initFromHash L U M none props []) ↔ f.tags = (fields rp).tags ∧
      f.maxStalenessSeconds = (fields rp).maxStalenessSeconds ∧ f.hedge = (fields rp).hedge ∧
      StalenessFits (fields rp) := by
  have hprimary : ∀ {d : Doc}, ((fields rp).mode = .primary → d = []) →
      d = [] ∨ (fields rp).mode ≠ .primary := fun h => by
    by_cases hmode : (fields rp).mode = .primary
    · exact Or.inl (h hmode)
    · exact Or.inr hmode
  rw [initFromHash_none]
  rcases h.gives hM with ⟨hc,rp',hr,hg⟩ | ⟨hc,hr⟩
  · rw [hr]
    constructor
    · rintro ⟨-,rp'',hrp,-,ht,hn,hh⟩
      obtain rfl : rp' = rp'' := Option.some.inj hrp
      rw [hM.getTags,hM.getTags,hg] at ht
      rw [hM.getMaxStalenessSeconds,hM.getMaxStalenessSeconds,hg] at hn
      rw [hM.getHedge,hM.getHedge,hg] at hh
      refine ⟨ht,hn,hh,?_⟩
      have hfits : StalenessFits f := hc.2.2.1
      rwa [StalenessFits,hn,hmode] at hfits
    · rintro ⟨ht,hn,hh,-⟩
      refine ⟨rfl,rp',rfl,?_,?_,?_,?_⟩
      · rw [hM.getMode,hM.getMode,hg,hmode]
      · rw [hM.getTags,hM.getTags,hg,ht]
      · rw [hM.getMaxStalenessSeconds,hM.getMaxStalenessSeconds,hg,hn]
      · rw [hM.getHedge,hM.getHedge,hg,hh]
  · constructor
    · rintro ⟨-,rp'',hrp,-⟩
      cases hr.symm.trans hrp
    · rintro ⟨ht,hn,hh,hfits⟩
      have hf : f = fields rp := by
        rcases f with ⟨⟨mode,tags,n⟩,hedge⟩
        rw [show fields rp = ⟨⟨(fields rp).mode,(fields rp).tags,(fields rp).maxStalenessSeconds⟩,
          (fields rp).hedge⟩ from rfl,← hmode,← ht,← hn,← hh]
      rw [hf] at hc
      exact absurd ⟨trivial,⟨hs.tags,hprimary fun h => (hs.valid.primary h).1⟩,hfits,
        hprimary fun h => (hs.valid.primary h).2.2,hs.valid⟩ hc

end Steps
end Imported
end ReadPreferenceObject
end Phongo
