import Mathlib.Tactic.Common
import Phongo.Concern.ReadPreferenceExport

/-! Serialization of read preferences: the table of exported values, what comes back of it from
PHP's serialization format, and what a table that was exported before adds to it. -/
namespace Phongo
open OrderedTable
namespace ReadPreferenceObject
variable {Rp : Type}

section
variable (L : Libbson) (U : Userland) (M : MongocReadPrefs Rp) (F : SerialFormat)

/-- `serialize` throws nothing, and what `unserialize` makes of the text looks like `rp`. -/
def SerializedRestore (o : ConcernObject Rp) (rp : Rp) : Prop :=
  ∃ s r, serialize L U M F o.handle [] = (some s,[]) ∧ unserialize L U M F s [] = some r ∧
    Restored M rp r

/-- The properties are exported without an exception, and an object initialised from them looks
like `rp`. -/
def PropertiesRestore (o : ConcernObject Rp) (rp : Rp) (isTemp : Bool) : Prop :=
  ∃ props o', getPropertiesHash L U M o isTemp [] = ((props,o'),[]) ∧
    Restored M rp (initFromHash L U M none props [])

/-- Each way to export the object throws nothing and is undone by its counterpart: `serialize` by
`unserialize`, the properties that `__serialize` returns by `__unserialize`, and those of
`var_export` by `__set_state`. -/
def RoundTrips (o : ConcernObject Rp) : Prop :=
  ∃ rp, o.handle = some rp ∧ SerializedRestore L U M F o rp ∧
    PropertiesRestore L U M o rp true ∧ PropertiesRestore L U M o rp false

end

/-- The table holds no field that is not set any more. -/
structure Fresh (t : Props) (rp : ReadPrefsFields) : Prop where
  tags : t.findStr "tags" ≠ none → rp.tags ≠ []
  maxStaleness : t.findStr "maxStalenessSeconds" ≠ none → rp.maxStalenessSeconds ≠ noMaxStaleness
  hedge : t.findStr "hedge" ≠ none → rp.hedge ≠ []

/-- What comes back from every export: documents that can be decoded and last in the
serialization format, a maxStalenessSeconds in the range that is checked, and a table that holds
nothing else. -/
structure Faithful (V : ValueOutside) (o : ConcernObject Rp) (rp : ReadPrefsFields) : Prop where
  accepted : acceptsAll V.libbson rp.tags = true ∧ acceptsAll V.libbson rp.hedge = true
  tags : TagsLast V rp.tags
  hedge : RootLasts V true rp.hedge
  maxStaleness : rp.maxStalenessSeconds = noMaxStaleness ∨
    90 ≤ rp.maxStalenessSeconds ∧ rp.maxStalenessSeconds ≤ 2147483647
  fresh : Fresh (o.properties.getD []) rp

/-- The part of others: classes of the application give back and restore the documents that name
them. `depth` goes to the innermost scope of code. -/
structure Cooperates (V : ValueOutside) (depth : ℕ) (rp : ReadPrefsFields) : Prop where
  properties : ClassesGiveBack V.libbson V.userland rp
  tags : acceptsAll V.libbson rp.tags = true → ClassesRestoreAll V true depth true rp.tags
  hedge : acceptsAll V.libbson rp.hedge = true → RootClassesRestore V true depth rp.hedge

section Table

def exportedProps (mode : Bytes) (tags maxStaleness hedge : Option Zval) : Props :=
  [property "mode" (.string mode)] ++ (tags.map (property "tags")).toList ++
    (maxStaleness.map (property "maxStalenessSeconds")).toList ++
    (hedge.map (property "hedge")).toList

theorem findStr_exportedProps (mode : Bytes) (tags maxStaleness hedge : Option Zval) :
    (exportedProps mode tags maxStaleness hedge).findStr "mode" = some (.string mode) ∧
    (exportedProps mode tags maxStaleness hedge).findStr "tags" = tags ∧
    (exportedProps mode tags maxStaleness hedge).findStr "maxStalenessSeconds" = maxStaleness ∧
    (exportedProps mode tags maxStaleness hedge).findStr "hedge" = hedge := by
  cases tags <;> cases maxStaleness <;> cases hedge <;> exact ⟨rfl,rfl,rfl,rfl⟩

theorem keys_exportedProps_sublist (mode : Bytes) (tags maxStaleness hedge : Option Zval) :
    (keys (exportedProps mode tags maxStaleness hedge)).Sublist
      [.str (ascii "mode"),.str (ascii "tags"),.str (ascii "maxStalenessSeconds"),
        .str (ascii "hedge")] := by
  rw [exportedProps,keys_append,keys_append,keys_append]
  have hmode := List.Sublist.refl [Key.str (ascii "mode")]
  exact ((hmode.append (keys_optional_sublist _ "tags")).append
    (keys_optional_sublist _ "maxStalenessSeconds")).append (keys_optional_sublist _ "hedge")

theorem nodup_exportedProps (mode : Bytes) (tags maxStaleness hedge : Option Zval) :
    (keys (exportedProps mode tags maxStaleness hedge)).Nodup :=
  (keys_exportedProps_sublist mode tags maxStaleness hedge).nodup (by decide)

def unlessEmpty (d : Doc) (z : Zval) : Option Zval := if d.isEmpty then none else some z

def exportedStaleness (n : Int64) : Option Zval :=
  if n ≠ noMaxStaleness then some (.long n) else none

theorem fieldGiven_unlessEmpty {Reads : Zval → Doc → Prop} {d ws : Doc} {z : Zval}
    (hz : Reads z ws) (h : ws = [] ↔ d = []) : FieldGiven Reads [] (unlessEmpty d z) ws := by
  cases d with
  | nil => exact Or.inl ⟨rfl,h.mpr rfl⟩
  | cons f d => exact Or.inr ⟨z,rfl,hz,h.not.mpr (List.cons_ne_nil f d)⟩

theorem fieldGiven_exportedStaleness (n : Int64) :
    FieldGiven StalenessRead noMaxStaleness (exportedStaleness n) n := by
  by_cases h : n = noMaxStaleness
  · exact Or.inl ⟨if_neg (not_not.mpr h),h⟩
  · exact Or.inr ⟨.long n,if_pos h,rfl,h⟩

variable {L : Libbson} {U : Userland} {M : MongocReadPrefs Rp}

theorem exportDoc_eq {map : Typemap} {d : Doc} {z : Zval} (h : Decodes L U map d z)
    (name : String) : exportDoc L U name map d [] =
      (some ((unlessEmpty d z).map (property name)).toList,[]) := by
  cases d with
  | nil => rfl
  | cons e d =>
    simp only [exportDoc,unlessEmpty,List.isEmpty_cons,Bool.false_eq_true,if_false,h.ok,if_true,
      h.zchild,h.exceptions]
    rfl

theorem exportDoc_rejected {name : String} {map : Typemap} {d : Doc} {eg : Pending}
    (h : acceptsAll L d = false) : (exportDoc L U name map d eg).1 = none := by
  have hr := (bsonToZvalRoot_rejects (U:=U) h true { BsonState.init with map := map } eg).1
  have hok : (bsonToZvalEx L U (.read d true) { BsonState.init with map := map } eg).ok = false :=
    hr
  unfold exportDoc
  split
  · rename_i hempty
    rw [List.isEmpty_iff.mp hempty] at h
    cases h
  · simp [hok]

theorem properties_eq (map : Typemap) (rp : Rp) {tags hedge : Zval}
    (htags : Decodes L U map (M.getTags rp) tags)
    (hhedge : Decodes L U .default (M.getHedge rp) hedge) :
    properties L U M map rp [] = ⟨true,exportedProps (getModeString (M.getMode rp))
      (unlessEmpty (M.getTags rp) tags) (exportedStaleness (M.getMaxStalenessSeconds rp))
      (unlessEmpty (M.getHedge rp) hedge),[]⟩ := by
  unfold properties
  rw [exportDoc_eq htags]
  dsimp only
  rw [exportDoc_eq hhedge]
  by_cases hn : M.getMaxStalenessSeconds rp = noMaxStaleness
  · simp [exportedProps,exportedStaleness,hn]
  · simp [exportedProps,exportedStaleness,hn]

theorem accepts_of_properties {map : Typemap} {rp : Rp} {eg : Pending}
    (h : (properties L U M map rp eg).complete = true) :
    acceptsAll L (M.getTags rp) = true ∧ acceptsAll L (M.getHedge rp) = true := by
  unfold properties at h
  rcases ht : exportDoc L U "tags" map (M.getTags rp) eg with ⟨_ | tags,eg₁⟩
  · rw [ht] at h
    cases h
  · rw [ht] at h
    dsimp only at h
    rcases hh : exportDoc L U "hedge" Typemap.default (M.getHedge rp) eg₁ with ⟨_ | hedge,eg₂⟩
    · rw [hh] at h
      cases h
    · constructor
      · by_contra ha
        cases (exportDoc_rejected (by simpa using ha)).symm.trans (congrArg Prod.fst ht)
      · by_contra ha
        cases (exportDoc_rejected (by simpa using ha)).symm.trans (congrArg Prod.fst hh)

end Table

section Stale
variable (L : Libbson) (U : Userland)

/-- Every field that a table holds is read as one that is set. -/
structure Given (props : Props) : Prop where
  tags : ∃ tags, FieldGiven (TagsRead L U) [] (props.findStr "tags") tags
  maxStaleness : ∃ n,
    FieldGiven StalenessRead noMaxStaleness (props.findStr "maxStalenessSeconds") n
  hedge : ∃ hedge, FieldGiven (HedgeRead L U) [] (props.findStr "hedge") hedge

/-- The same mode and maxStalenessSeconds, and documents that are empty where the others are. -/
structure Alike (f rp : ReadPrefsFields) : Prop where
  mode : f.mode = rp.mode
  tags : f.tags = [] ↔ rp.tags = []
  maxStaleness : f.maxStalenessSeconds = rp.maxStalenessSeconds
  hedge : f.hedge = [] ↔ rp.hedge = []

variable {L U} {M : MongocReadPrefs Rp} {fields : Rp → ReadPrefsFields}

theorem findStr_updateAll (t : Props) {props : Props} (hn : (keys props).Nodup) (name : String) :
    Props.findStr (updateAll t props) name = (props.findStr name).or (t.findStr name) :=
  find?_updateAll t props hn (.str (ascii name))

theorem given_nil : Given L U [] :=
  ⟨⟨[],Or.inl ⟨rfl,rfl⟩⟩,⟨noMaxStaleness,Or.inl ⟨rfl,rfl⟩⟩,⟨[],Or.inl ⟨rfl,rfl⟩⟩⟩

theorem Given.updateAll {t props : Props} (ht : Given L U t) (h : Given L U props)
    (hn : (keys props).Nodup) : Given L U (updateAll t props) := by
  obtain ⟨⟨tags,htags⟩,⟨n,hmax⟩,⟨hedge,hhedge⟩⟩ := h
  obtain ⟨⟨tags',htags'⟩,⟨n',hmax'⟩,⟨hedge',hhedge'⟩⟩ := ht
  obtain ⟨tags'',htags,-⟩ := htags.or htags'
  obtain ⟨n'',hmax,-⟩ := hmax.or hmax'
  obtain ⟨hedge'',hhedge,-⟩ := hhedge.or hhedge'
  constructor
  · exact ⟨tags'',(findStr_updateAll t hn "tags").symm ▸ htags⟩
  · exact ⟨n'',(findStr_updateAll t hn "maxStalenessSeconds").symm ▸ hmax⟩
  · exact ⟨hedge'',(findStr_updateAll t hn "hedge").symm ▸ hhedge⟩

/-- What a table stands for after another was written over it. -/
theorem Imports.updateAll {t props : Props} {f : ReadPrefsFields} (h : Imports L U props f)
    (ht : Given L U t) (hn : (keys props).Nodup) :
    ∃ g, Imports L U (updateAll t props) g ∧ g.mode = f.mode ∧ ∀ rp, Alike f rp →
      ((g.tags = rp.tags ∧ g.maxStalenessSeconds = rp.maxStalenessSeconds ∧ g.hedge = rp.hedge) ↔
        f.tags = rp.tags ∧ f.hedge = rp.hedge ∧ Fresh t rp) := by
  obtain ⟨⟨tags',htags'⟩,⟨n',hmax'⟩,⟨hedge',hhedge'⟩⟩ := ht
  obtain ⟨tags,htags,htagsIff⟩ := h.tags.or htags'
  obtain ⟨n,hmax,hmaxIff⟩ := h.maxStaleness.or hmax'
  obtain ⟨hedge,hhedge,hhedgeIff⟩ := h.hedge.or hhedge'
  refine ⟨⟨⟨f.mode,tags,n⟩,hedge⟩,⟨?_,?_,?_,?_⟩,rfl,fun rp hrp => ?_⟩
  · rw [findStr_updateAll t hn,h.mode]
    rfl
  · exact (findStr_updateAll t hn "tags").symm ▸ htags
  · exact (findStr_updateAll t hn "maxStalenessSeconds").symm ▸ hmax
  · exact (findStr_updateAll t hn "hedge").symm ▸ hhedge
  · have hsame : f.maxStalenessSeconds = noMaxStaleness ↔
        rp.maxStalenessSeconds = noMaxStaleness := by rw [hrp.maxStaleness]
    rw [htagsIff rp.tags hrp.tags,hmaxIff rp.maxStalenessSeconds hsame,
      hhedgeIff rp.hedge hrp.hedge]
    constructor
    · rintro ⟨⟨ht,htfresh⟩,⟨-,hnfresh⟩,hh,hhfresh⟩
      exact ⟨ht,hh,htfresh,hnfresh,hhfresh⟩
    · rintro ⟨ht,hh,htfresh,hnfresh,hhfresh⟩
      exact ⟨⟨ht,htfresh⟩,⟨hrp.maxStaleness,hnfresh⟩,hh,hhfresh⟩

theorem given_exportedProps {mode : Bytes} {a b c : Option Zval}
    (ha : ∃ tags, FieldGiven (TagsRead L U) [] a tags)
    (hb : ∃ n, FieldGiven StalenessRead noMaxStaleness b n)
    (hc : ∃ hedge, FieldGiven (HedgeRead L U) [] c hedge) :
    Given L U (exportedProps mode a b c) := by
  obtain ⟨-,htags,hmax,hhedge⟩ := findStr_exportedProps mode a b c
  exact ⟨htags.symm ▸ ha,hmax.symm ▸ hb,hhedge.symm ▸ hc⟩

variable (hL : L.Lawful) (hM : M.Lawful fields)
include hL hM

/-- However the export of the properties ends, they are some of these. -/
theorem properties_given {rp : Rp} (hs : Sound (fields rp))
    (hc : ClassesGiveBack L U (fields rp)) :
    ∃ mode a b c, (properties L U M propertiesMap rp []).props = exportedProps mode a b c ∧
      Given L U (exportedProps mode a b c) := by
  obtain ⟨hct,hch⟩ := hc
  rw [← hM.getTags] at hct
  rw [← hM.getHedge] at hch
  by_cases ha : acceptsAll L (M.getTags rp) = true
  · have hvalid : readPreferenceTagsAreValid (M.getTags rp) = true := hM.getTags rp ▸ hs.tags
    obtain ⟨els,ws,htags,hws,hnil,-⟩ := tags_exported hL hvalid (hct ha) ha
    have hgiven : FieldGiven (TagsRead L U) [] (unlessEmpty (M.getTags rp) (.array none els)) ws :=
      fieldGiven_unlessEmpty ⟨els,rfl,hws⟩ hnil
    have hmax := fieldGiven_exportedStaleness (M.getMaxStalenessSeconds rp)
    by_cases hah : acceptsAll L (M.getHedge rp) = true
    · obtain ⟨z,ws',hhedge,hws',hnil',-⟩ := returned_root hL (hch hah) hah
      refine ⟨_,_,_,_,congrArg Export.props (properties_eq propertiesMap rp htags hhedge),
        given_exportedProps ⟨_,hgiven⟩ ⟨_,hmax⟩ ⟨ws',?_⟩⟩
      exact fieldGiven_unlessEmpty ⟨isArrayOrObject_of_decodes hah hhedge,hws'⟩ hnil'
    · refine ⟨getModeString (M.getMode rp),unlessEmpty (M.getTags rp) (.array none els),
        exportedStaleness (M.getMaxStalenessSeconds rp),none,?_,
        given_exportedProps ⟨_,hgiven⟩ ⟨_,hmax⟩ ⟨[],Or.inl ⟨rfl,rfl⟩⟩⟩
      have hnone : (exportDoc L U "hedge" Typemap.default (M.getHedge rp) []).1 = none :=
        exportDoc_rejected (by simpa using hah)
      unfold properties
      rw [exportDoc_eq htags]
      dsimp only
      generalize exportDoc L U "hedge" Typemap.default (M.getHedge rp) [] = r at hnone ⊢
      obtain ⟨hedge,eg⟩ := r
      obtain rfl : hedge = none := hnone
      by_cases hmaxn : M.getMaxStalenessSeconds rp = noMaxStaleness
      · simp [exportedProps,exportedStaleness,hmaxn]
      · simp [exportedProps,exportedStaleness,hmaxn]
  · refine ⟨getModeString (M.getMode rp),none,none,none,?_,given_exportedProps
      ⟨[],Or.inl ⟨rfl,rfl⟩⟩ ⟨noMaxStaleness,Or.inl ⟨rfl,rfl⟩⟩ ⟨[],Or.inl ⟨rfl,rfl⟩⟩⟩
    have hnone : (exportDoc L U "tags" propertiesMap (M.getTags rp) []).1 = none :=
      exportDoc_rejected (by simpa using ha)
    unfold properties
    generalize exportDoc L U "tags" propertiesMap (M.getTags rp) [] = r at hnone ⊢
    obtain ⟨tags,eg⟩ := r
    obtain rfl : tags = none := hnone
    rfl

theorem Reachable.given {o : ConcernObject Rp} (h : Reachable L U M fields o) :
    Given L U (o.properties.getD []) := by
  induction h with
  | createObject => exact given_nil
  | mongoc _ => exact given_nil
  | construct _ ih => exact ih
  | initFromHash _ ih => exact ih
  | @getProperties o ho hc ih =>
    unfold getPropertiesHash
    cases hhandle : o.handle with
    | none => exact ih
    | some rp =>
      obtain ⟨mode,a,b,c,hprops,hgiven⟩ :=
        properties_given hL hM (ho.sound hM rp hhandle) (hc rp hhandle)
      have htable := ih.updateAll hgiven (nodup_exportedProps mode a b c)
      rw [← hprops] at htable
      exact htable

end Stale

section Properties
variable {L : Libbson} {U : Userland} {M : MongocReadPrefs Rp} {fields : Rp → ReadPrefsFields}

theorem imports_exportedProps {tags ws hedge ws' : Doc} {els : List (Key × Zval)} {zh : Zval}
    (mode : ReadMode) (n : Int64)
    (hws : zvalToDoc L U (.array none (prepTagsets els)) [] = (some ws,[]))
    (hnil : ws = [] ↔ tags = []) (hzh : zh.isArrayOrObject = true)
    (hws' : zvalToDoc L U zh [] = (some ws',[])) (hnil' : ws' = [] ↔ hedge = []) :
    Imports L U (exportedProps (getModeString mode) (unlessEmpty tags (.array none els))
      (exportedStaleness n) (unlessEmpty hedge zh)) ⟨⟨mode,ws,n⟩,ws'⟩ := by
  obtain ⟨hmode,htags,hmax,hhedge⟩ := findStr_exportedProps (getModeString mode)
    (unlessEmpty tags (.array none els)) (exportedStaleness n) (unlessEmpty hedge zh)
  refine ⟨hmode,?_,?_,?_⟩
  · rw [htags]
    exact fieldGiven_unlessEmpty ⟨els,rfl,hws⟩ hnil
  · rw [hmax]
    exact fieldGiven_exportedStaleness n
  · rw [hhedge]
    exact fieldGiven_unlessEmpty ⟨hzh,hws'⟩ hnil'

variable (hL : L.Lawful) (hM : M.Lawful fields)
include hL hM

/-- The properties of documents that can be decoded, and what they stand for. -/
theorem properties_imports {rp : Rp} (hs : Sound (fields rp))
    (hc : ClassesGiveBack L U (fields rp))
    (ha : acceptsAll L (fields rp).tags = true ∧ acceptsAll L (fields rp).hedge = true) :
    ∃ props f, properties L U M propertiesMap rp [] = ⟨true,props,[]⟩ ∧ (keys props).Nodup ∧
      Imports L U props f ∧ Alike f (fields rp) ∧ (f.tags = (fields rp).tags ↔
        (keys (fields rp).tags).Nodup ∧ ComesBackAll L U true (fields rp).tags) ∧
      (f.hedge = (fields rp).hedge ↔ RootComesBack L U true (fields rp).hedge) := by
  obtain ⟨els,ws,htags,hws,hnil,hiff⟩ := tags_exported hL hs.tags (hc.tags ha.1) ha.1
  obtain ⟨z,ws',hhedge,hws',hnil',hiff'⟩ := returned_root hL (hc.hedge ha.2) ha.2
  have hz := isArrayOrObject_of_decodes ha.2 hhedge
  rw [← hM.getTags] at htags
  rw [← hM.getHedge] at hhedge
  have hprops := properties_eq propertiesMap rp htags hhedge
  rw [hM.getTags,hM.getHedge,hM.getMode,hM.getMaxStalenessSeconds] at hprops
  exact ⟨_,⟨⟨(fields rp).mode,ws,(fields rp).maxStalenessSeconds⟩,ws'⟩,hprops,
    nodup_exportedProps _ _ _ _,imports_exportedProps _ _ hws hnil hz hws' hnil',
    ⟨rfl,hnil,rfl,hnil'⟩,hiff,hiff'⟩

omit hL hM in
theorem fill_fst (o : ConcernObject Rp) (isTemp : Bool) (exported : Props) :
    (o.fill isTemp exported).1 =
      updateAll (if isTemp then [] else o.properties.getD []) exported := by
  cases isTemp <;> rfl

/-- An object comes back from its properties exactly if its documents do, its maxStalenessSeconds
pass the checks, and the table held no field that is not set any more. -/
theorem propertiesRestore_iff {o : ConcernObject Rp} (h : Reachable L U M fields o) {rp : Rp}
    (ho : o.handle = some rp) (hc : ClassesGiveBack L U (fields rp))
    (ha : acceptsAll L (fields rp).tags = true ∧ acceptsAll L (fields rp).hedge = true)
    (isTemp : Bool) : PropertiesRestore L U M o rp isTemp ↔
      ((keys (fields rp).tags).Nodup ∧ ComesBackAll L U true (fields rp).tags) ∧
      RootComesBack L U true (fields rp).hedge ∧ StalenessFits (fields rp) ∧
      Fresh (if isTemp then [] else o.properties.getD []) (fields rp) := by
  have hs := h.sound hM rp ho
  obtain ⟨props,f,hprops,hn,himports,halike,htags,hhedge⟩ := properties_imports hL hM hs hc ha
  have hgiven : Given L U (if isTemp then [] else o.properties.getD []) := by
    cases isTemp with
    | false => exact h.given hL hM
    | true => exact given_nil
  obtain ⟨g,hg,hmode,hiff⟩ := himports.updateAll hgiven hn
  have hrestored := hg.restored_iff hM hs (hmode.trans halike.mode)
  rw [← fill_fst] at hrestored
  have hhash : getPropertiesHash L U M o isTemp [] = (o.fill isTemp props,[]) := by
    simp only [getPropertiesHash,ho,hprops]
  have hcomes : PropertiesRestore L U M o rp isTemp ↔
      Restored M rp (initFromHash L U M none (o.fill isTemp props).1 []) := by
    constructor
    · rintro ⟨props',o',heq,hr⟩
      rw [hhash,Prod.mk.injEq] at heq
      rwa [heq.1]
    · exact fun hr => ⟨_,_,hhash,hr⟩
  rw [hcomes,hrestored,← htags,← hhedge]
  have hfields := hiff (fields rp) halike
  constructor
  · rintro ⟨ht,hm,hh,hfits⟩
    obtain ⟨ht,hh,hfresh⟩ := hfields.mp ⟨ht,hm,hh⟩
    exact ⟨ht,hh,hfits,hfresh⟩
  · rintro ⟨ht,hh,hfits,hfresh⟩
    obtain ⟨ht,hm,hh⟩ := hfields.mpr ⟨ht,hh,hfresh⟩
    exact ⟨ht,hm,hh,hfits⟩

end Properties

section Serialized
variable {F : SerialFormat} {mode : Bytes} {tags hedge : Doc} {n : Int64} {zt zt' zh zh' : Zval}

theorem eq_of_unlessEmpty {d : Doc} {z z' : Zval} (h : unlessEmpty d z = some z') : z' = z := by
  unfold unlessEmpty at h
  split at h
  · cases h
  · exact (Option.some.inj h).symm

theorem unlessEmpty_of_ne {d : Doc} (h : d ≠ []) (z : Zval) : unlessEmpty d z = some z := by
  cases d with
  | nil => exact absurd rfl h
  | cons f d => rfl

theorem regular_exportedProps (ht : Regular F zt) (hh : Regular F zh) :
    Regular F (.array none (exportedProps mode (unlessEmpty tags zt) (exportedStaleness n)
      (unlessEmpty hedge zh))) := by
  have hsub := keys_exportedProps_sublist mode (unlessEmpty tags zt) (exportedStaleness n)
    (unlessEmpty hedge zh)
  refine ⟨nodup_exportedProps _ _ _ _,fun key hkey => ?_,regularAll_iff.mpr fun e he => ?_⟩
  · have hall : ∀ key ∈ [Key.str (ascii "mode"),.str (ascii "tags"),
        .str (ascii "maxStalenessSeconds"),.str (ascii "hedge")],key.Normal := by decide
    exact hall key (hsub.subset hkey)
  · simp only [exportedProps,List.mem_append,List.mem_singleton,Option.mem_toList,
      Option.map_eq_some_iff] at he
    rcases he with ((rfl | ⟨z,hz,rfl⟩) | ⟨z,hz,rfl⟩) | ⟨z,hz,rfl⟩
    · trivial
    · exact eq_of_unlessEmpty hz ▸ ht
    · unfold exportedStaleness at hz
      split at hz
      · cases hz
        trivial
      · cases hz
    · exact eq_of_unlessEmpty hz ▸ hh

theorem comesBackAll_exportedProps (ht : comesBack F zt = some zt')
    (hh : comesBack F zh = some zh') :
    comesBackAll F (exportedProps mode (unlessEmpty tags zt) (exportedStaleness n)
      (unlessEmpty hedge zh)) = some (exportedProps mode (unlessEmpty tags zt')
        (exportedStaleness n) (unlessEmpty hedge zh')) := by
  by_cases hn : n = noMaxStaleness
  · cases tags <;> cases hedge <;>
      simp [exportedProps,exportedStaleness,unlessEmpty,property,comesBackAll,comesBack,ht,hh,hn]
  · cases tags <;> cases hedge <;>
      simp [exportedProps,exportedStaleness,unlessEmpty,property,comesBackAll,comesBack,ht,hh,hn]

theorem comesBackAll_of_lostTags (ht : comesBack F zt = none) (hne : tags ≠ []) :
    comesBackAll F (exportedProps mode (unlessEmpty tags zt) (exportedStaleness n)
      (unlessEmpty hedge zh)) = none := by
  refine comesBackAll_eq_none.mpr ⟨property "tags" zt,?_,ht⟩
  simp [exportedProps,unlessEmpty_of_ne hne]

theorem comesBackAll_of_lostHedge (hh : comesBack F zh = none) (hne : hedge ≠ []) :
    comesBackAll F (exportedProps mode (unlessEmpty tags zt) (exportedStaleness n)
      (unlessEmpty hedge zh)) = none := by
  refine comesBackAll_eq_none.mpr ⟨property "hedge" zh,?_,hh⟩
  simp [exportedProps,unlessEmpty_of_ne hne]

section
variable {L : Libbson} {U : Userland} {M : MongocReadPrefs Rp} {o : ConcernObject Rp} {rp : Rp}

theorem serializedRestore_iff (ho : o.handle = some rp) {props : Props}
    (hprops : properties L U M debugMap rp [] = ⟨true,props,[]⟩)
    (hregular : Regular F (.array none props)) : SerializedRestore L U M F o rp ↔
      ∃ props', comesBackAll F props = some props' ∧
        Restored M rp (initFromHash L U M none props' []) := by
  have hs : serialize L U M F o.handle [] = (some (serializeProps F props),[]) := by
    simp only [serialize,ho,hprops,if_true]
  have hback := unserializeMethod_comesBack F className hregular
    (fun props eg => some (initFromHash L U M none props eg)) []
  constructor
  · rintro ⟨s,r,hs',hr,hrestored⟩
    obtain rfl : serializeProps F props = s := Option.some.inj (congrArg Prod.fst (hs.symm.trans hs'))
    rw [unserialize,hback] at hr
    cases hall : comesBackAll F props with
    | none =>
      rw [hall] at hr
      rw [← Option.some.inj hr] at hrestored
      exact absurd hrestored.exceptions (List.cons_ne_nil _ _)
    | some props' =>
      rw [hall] at hr
      exact ⟨props',rfl,Option.some.inj hr ▸ hrestored⟩
  · rintro ⟨props',hall,hrestored⟩
    rw [hall] at hback
    exact ⟨_,_,hs,hback,hrestored⟩

theorem accepts_of_serializedRestore (ho : o.handle = some rp)
    (h : SerializedRestore L U M F o rp) :
    acceptsAll L (M.getTags rp) = true ∧ acceptsAll L (M.getHedge rp) = true := by
  obtain ⟨s,r,hs,-⟩ := h
  have hcomplete : (properties L U M debugMap rp []).complete = true := by
    by_contra hn
    simp [serialize,ho,hn] at hs
  exact accepts_of_properties hcomplete

end

variable {V : ValueOutside} {M : MongocReadPrefs Rp} {fields : Rp → ReadPrefsFields}

/-- An object comes back from the serialization format exactly if its documents last in it and its
maxStalenessSeconds pass the checks. -/
theorem serialized_iff (hV : V.Lawful) (hM : M.Lawful fields) {depth : ℕ} {o : ConcernObject Rp}
    {rp : Rp} (ho : o.handle = some rp) (hs : Sound (fields rp))
    (hc : Cooperates V depth (fields rp)) (ha : acceptsAll V.libbson (fields rp).tags = true ∧
      acceptsAll V.libbson (fields rp).hedge = true) :
    SerializedRestore V.libbson V.userland M (V.format depth) o rp ↔
      TagsLast V (fields rp).tags ∧ RootLasts V true (fields rp).hedge ∧
      StalenessFits (fields rp) := by
  obtain ⟨zs,hzs,htags⟩ := tagSets_stored hV hs.tags ha.1 (hc.tags ha.1)
  obtain ⟨z,hdhedge,hhedge⟩ := (hc.hedge ha.2).stored hV ha.2
  have hdtags : Decodes V.libbson V.userland (tagsMap true) (fields rp).tags (ofFields false zs) :=
    decodes_tags ha.1 hzs
  rw [← hM.getTags] at hdtags
  rw [← hM.getHedge] at hdhedge
  have hprops := properties_eq (tagsMap true) rp hdtags hdhedge
  rw [hM.getTags,hM.getHedge,hM.getMode,hM.getMaxStalenessSeconds] at hprops
  rw [serializedRestore_iff ho hprops
    (regular_exportedProps (regular_ofFields htags.regular) hhedge.regular)]
  cases hback : comesBack (V.format depth) (ofFields false zs) with
  | none =>
    have hlost := htags.lostTags hback
    refine iff_of_false ?_ fun h => hlost h.1
    rintro ⟨props',hall,-⟩
    have hne : (fields rp).tags ≠ [] := by
      intro hnil
      rw [hnil] at hlost
      exact hlost ⟨List.nodup_nil,by simp⟩
    exact Option.some_ne_none props' (hall.symm.trans (comesBackAll_of_lostTags hback hne))
  | some zt =>
    cases hback' : comesBack (V.format depth) z with
    | none =>
      have hlost := hhedge.lost hback'
      refine iff_of_false ?_ fun h => hlost h.2.1
      rintro ⟨props',hall,-⟩
      have hne : (fields rp).hedge ≠ [] := by
        intro hnil
        rw [hnil] at hlost
        exact hlost (Or.inr ⟨List.nodup_nil,trivial⟩)
      exact Option.some_ne_none props' (hall.symm.trans (comesBackAll_of_lostHedge hback' hne))
    | some zh =>
      obtain ⟨els,ws,rfl,hws,hnil,hiff⟩ := htags.revivedTags hback
      obtain ⟨ws',hzh,hws',-,-,hnil',hiff'⟩ := hhedge.revived zh hback'
      have hsame : ws' = (fields rp).hedge ↔ RootLasts V true (fields rp).hedge := hiff'
      have himports := imports_exportedProps (fields rp).mode (fields rp).maxStalenessSeconds
        hws hnil hzh hws' hnil'
      have hrestored := himports.restored_iff hM hs rfl
      rw [comesBackAll_exportedProps hback hback']
      simp only [Option.some.injEq,exists_eq_left']
      rw [hrestored,← hiff,← hsame]
      simp

end Serialized

section RoundTrip
variable {M : MongocReadPrefs Rp} {fields : Rp → ReadPrefsFields}

/-- A read preference comes back from each export exactly if it is one that does. -/
theorem readPreference_roundTrips_iff (V : ValueOutside) (hV : V.Lawful) (hM : M.Lawful fields)
    (depth : ℕ) {o : ConcernObject Rp} (h : Reachable V.libbson V.userland M fields o)
    (hc : ∀ rp, o.handle = some rp → Cooperates V depth (fields rp)) :
    RoundTrips V.libbson V.userland M (V.format depth) o ↔
      ∃ rp, o.handle = some rp ∧ Faithful V o (fields rp) := by
  constructor
  · rintro ⟨rp,ho,hserialized,-,hproperties⟩
    have hs := h.sound hM rp ho
    have ha := accepts_of_serializedRestore ho hserialized
    rw [hM.getTags,hM.getHedge] at ha
    obtain ⟨htags,hhedge,hfits⟩ := (serialized_iff hV hM ho hs (hc rp ho) ha).mp hserialized
    obtain ⟨-,-,-,hfresh⟩ := (propertiesRestore_iff hV.libbson hM h ho (hc rp ho).properties ha
      false).mp hproperties
    exact ⟨rp,ho,ha,htags,hhedge,(stalenessFits_iff hs.valid).mp hfits,hfresh⟩
  · rintro ⟨rp,ho,hfaithful⟩
    have hs := h.sound hM rp ho
    have ha := hfaithful.accepted
    have hfits := (stalenessFits_iff hs.valid).mpr hfaithful.maxStaleness
    have hproperties : ∀ isTemp, Fresh (if isTemp then [] else o.properties.getD []) (fields rp) →
        PropertiesRestore V.libbson V.userland M o rp isTemp := fun isTemp hfresh =>
      (propertiesRestore_iff hV.libbson hM h ho (hc rp ho).properties ha isTemp).mpr
        ⟨⟨hfaithful.tags.1,hfaithful.tags.comesBack hs.tags⟩,hfaithful.hedge.comesBack,hfits,hfresh⟩
    refine ⟨rp,ho,?_,hproperties true ?_,hproperties false hfaithful.fresh⟩
    · exact (serialized_iff hV hM ho hs (hc rp ho) ha).mpr
        ⟨hfaithful.tags,hfaithful.hedge,hfits⟩
    · exact ⟨fun hn => absurd rfl hn,fun hn => absurd rfl hn,fun hn => absurd rfl hn⟩

/-- `new ReadPreference('secondary', [['a' => $value]])` -/
def tagged (value : Zval) : Initialisation ReadPrefsFields :=
  construct ValueOutside.plain.libbson ValueOutside.plain.userland .plain (fun _ => 0) none
    (.string (ascii "secondary")) (some [(.int 0,.array none [(.str (ascii "a"),value)])]) none []

def taggedFields (v : BsonValue) : ReadPrefsFields :=
  ⟨⟨.secondary,[(.lit "0",.document [(.lit "a",v)])],noMaxStaleness⟩,[]⟩

theorem cooperates_tagged {v : BsonValue}
    (hback : ClassesComeBack ValueOutside.plain.libbson ValueOutside.plain.userland true v)
    (hrestore : ClassesRestore .plain true 0 true v) : Cooperates .plain 0 (taggedFields v) := by
  refine ⟨⟨fun _ => ⟨loads_of_ne (by decide) _,⟨fun h => ?_,fun _ => ?_⟩,trivial⟩,fun _ => ⟨nofun,?_⟩⟩,
    fun _ => ⟨loads_of_ne (by decide) _,⟨nofun,fun _ => ?_⟩,trivial⟩,fun _ => ⟨nofun,fun _ => trivial⟩⟩
  · have hunset := (ignores_of_ne (U:=ValueOutside.plain.userland) (by decide : CString.lit "a" ≠ _)
      v).unset
    rw [Userland.pclassOf,hunset] at h
    cases h
  · exact ⟨loads_of_ne (by decide) _,hback,trivial⟩
  · exact fun _ => trivial
  · exact ⟨loads_of_ne (by decide) _,hrestore,trivial⟩

theorem cooperates_nested {d : Doc} (hclass : ValueOutside.plain.userland.pclassOf d = none)
    (hback : ClassesComeBackAll ValueOutside.plain.libbson ValueOutside.plain.userland true d)
    (hrestore : ClassesRestoreAll .plain true 0 true d) :
    Cooperates .plain 0 (taggedFields (.document d)) :=
  cooperates_tagged
    ⟨fun h => absurd hclass (Option.isSome_iff_ne_none.mp h),fun _ => hback⟩
    ⟨nofun,fun _ => hrestore⟩

/-- The properties were asked for before. -/
theorem roundTrips_nestedDocument :
    RoundTrips ValueOutside.plain.libbson ValueOutside.plain.userland .plain
      (ValueOutside.plain.format 0)
      (getPropertiesHash ValueOutside.plain.libbson ValueOutside.plain.userland .plain
        ⟨(tagged (.object .stdClass none [(.str (ascii "b"),.bool true)] .null)).handle,none⟩
        false []).1.2 := by
  have hcooperates : Cooperates .plain 0 (taggedFields (.document [(.lit "b",.bool true)])) :=
    cooperates_nested (by decide +kernel) ⟨loads_of_ne (by decide) _,trivial,trivial⟩
      ⟨loads_of_ne (by decide) _,trivial,trivial⟩
  refine (readPreference_roundTrips_iff .plain ValueOutside.plain_lawful
    MongocReadPrefs.plain_lawful 0 (.getProperties (.construct .createObject) ?_) ?_).mpr
    ⟨taggedFields (.document [(.lit "b",.bool true)]),rfl,?_⟩
  · intro rp hrp
    cases hrp
    exact hcooperates.properties
  · intro rp hrp
    cases hrp
    exact hcooperates
  · have hb : ¬ Numbered 0 (keys [(CString.lit "b",BsonValue.bool true)]) :=
      fun h => absurd h.1 (by decide)
    refine ⟨⟨rfl,rfl⟩,⟨by decide,List.forall_mem_singleton.mpr ?_⟩,
      Or.inr ⟨List.nodup_nil,trivial⟩,Or.inl rfl,fun _ => List.cons_ne_nil _ _,
      fun h => absurd rfl h,fun h => absurd rfl h⟩
    exact ⟨by decide,Or.inr ⟨by decide,fun _ => hb,trivial,trivial⟩,trivial⟩

/-- An empty document comes back as an empty list. -/
theorem not_roundTrips_emptyDocument :
    (tagged (.object .stdClass none [] .null)).exceptions = [] ∧
    ¬ RoundTrips ValueOutside.plain.libbson ValueOutside.plain.userland .plain
      (ValueOutside.plain.format 0) ⟨(tagged (.object .stdClass none [] .null)).handle,none⟩ := by
  refine ⟨rfl,?_⟩
  rintro ⟨rp,hrp,hserialized,-⟩
  obtain rfl : taggedFields (.document []) = rp := Option.some.inj hrp
  have hcooperates : Cooperates .plain 0 (taggedFields (.document [])) :=
    cooperates_nested rfl trivial trivial
  have hsound : Sound (taggedFields (.document [])) :=
    ⟨⟨fun h => ReadMode.noConfusion h,Or.inl rfl⟩,rfl⟩
  have hlasts := (serialized_iff ValueOutside.plain_lawful MongocReadPrefs.plain_lawful rfl hsound
    hcooperates ⟨rfl,rfl⟩).mp hserialized
  obtain ⟨-,⟨hfalse,-⟩ | ⟨-,hempty,-⟩,-⟩ := List.forall_mem_singleton.mp hlasts.1.2
  · cases hfalse
  · exact hempty rfl trivial

end RoundTrip

end ReadPreferenceObject
end Phongo
