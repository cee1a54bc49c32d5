import Mathlib.Tactic.Common
import Phongo.Concern.ReadPreferenceImport
import Phongo.Value.Serialized

/-! What is exported of a read preference, and encoded again. `serialize` makes arrays of all
documents among the tags; `php_phongo_read_preference_prep_tagsets` makes objects of the tag sets,
but not of the documents in them. -/
namespace Phongo
open OrderedTable
namespace ReadPreferenceObject

/-- The typemap for the tags, of `serialize` or of the properties. -/
def tagsMap (native : Bool) : Typemap := { nativeMap native with rootType := .nativeArray }

/-- A tag set that comes back from arrays, when it is made an object again. -/
def TagSetLasts (V : ValueOutside) : BsonValue → Prop
  | .document d => (keys d).Nodup ∧ LastsAll V true true d
  | _ => True

def TagsLast (V : ValueOutside) (tags : Doc) : Prop :=
  (keys tags).Nodup ∧ ∀ e ∈ tags, TagSetLasts V e.2

section Decoding
variable {L : Libbson} {U : Userland}

theorem decodes_tags {native : Bool} {tags : Doc} {zs : List (CString × Zval)}
    (ha : acceptsAll L tags = true)
    (hzs : materialiseAll L U (nativeMap native) [] [] tags = (zs,[])) :
    Decodes L U (tagsMap native) tags (ofFields false zs) := by
  obtain ⟨hok,hz,heg⟩ := bsonToZvalEx_fresh (U:=U) ha (tagsMap native) []
  have htarget : (tagsMap native).rootTarget (U.pclassOf tags) = .array := by
    cases U.pclassOf tags <;> rfl
  have hfields : materialiseAll L U (tagsMap native) [] [] tags = (zs,[]) :=
    (materialiseAll_rootType L U (nativeMap native) .nativeArray tags [] []).trans hzs
  have hroot : materialiseRoot L U (tagsMap native) [] tags = (ofFields false zs,[]) := by
    rw [materialiseRoot,htarget,hfields]
    rfl
  rw [hroot] at hz heg
  exact ⟨hok,hz,heg⟩

/-- A tag set that was decoded to an object stays one. -/
theorem prepTagset_materialise (path : List CString) (eg : Pending) (d : Doc) :
    prepTagset (materialise L U .default path eg (.document d)).1 =
      (materialise L U .default path eg (.document d)).1 := by
  rw [materialise]
  cases U.pclassOf d with
  | none =>
    show prepTagset (Zval.convertToObject (ofFields false _)) =
      Zval.convertToObject (ofFields false _)
    rw [convertToObject_ofFields]
    rfl
  | some ce =>
    show prepTagset (U.unserialize ce _ _).1 = (U.unserialize ce _ _).1
    unfold Userland.unserialize
    split <;> rfl

theorem prepTagset_materialiseAll {tags : Doc} (hvalid : readPreferenceTagsAreValid tags = true)
    (path : List CString) (eg : Pending) :
    ∀ e ∈ (materialiseAll L U .default path eg tags).1, prepTagset e.2 = e.2 := by
  induction tags generalizing eg with
  | nil => exact fun e he => absurd he List.not_mem_nil
  | cons f tags ih =>
    obtain ⟨key,v⟩ := f
    simp only [readPreferenceTagsAreValid,List.all_cons,Bool.and_eq_true] at hvalid
    refine List.forall_mem_cons.mpr ⟨?_,ih hvalid.2 _⟩
    cases v with
    | document d => exact prepTagset_materialise (path ++ [key]) eg d
    | _ => cases hvalid.1

theorem tags_exported (hL : L.Lawful) {tags : Doc}
    (hvalid : readPreferenceTagsAreValid tags = true) (hc : ClassesComeBackAll L U true tags)
    (ha : acceptsAll L tags = true) :
    ∃ els ws, Decodes L U propertiesMap tags (.array none els) ∧
      zvalToDoc L U (.array none (prepTagsets els)) [] = (some ws,[]) ∧ (ws = [] ↔ tags = []) ∧
      (ws = tags ↔ (keys tags).Nodup ∧ ComesBackAll L U true tags) := by
  obtain ⟨zs,ws,hzs,hall⟩ := (returned_spec hL true).2 tags hc ha []
  obtain ⟨ws',hws,hiff⟩ := returned_document hall
  have hdecodes : Decodes L U (tagsMap false) tags (ofFields false zs) := decodes_tags ha hzs
  rw [ofFields_false_eq] at hdecodes
  refine ⟨_,ws',hdecodes,?_,?_,hiff⟩
  · have hprep : prepTagsets ((updateAll [] zs).map fun e => (symtable e.1.bytes,e.2)) =
        (updateAll [] zs).map fun e => (symtable e.1.bytes,e.2) := by
      rw [prepTagsets,List.map_map]
      refine List.map_congr_left fun e he => ?_
      have hmem : e ∈ (materialiseAll L U .default [] [] tags).1 := by
        rw [hzs]
        exact (mem_of_mem_updateAll he).resolve_left List.not_mem_nil
      exact congrArg (Prod.mk _) (prepTagset_materialiseAll hvalid [] [] e hmem)
    rw [hprep]
    exact zvalToDoc_of_yields
      (closeFields_writes (hws.fields toStr_symtable) false (Encoder.init []) rfl rfl)
  · rw [← eq_nil_of_keys hws.keys_eq,updateAll_eq_nil,
      eq_nil_of_keys (hall.written.keys_eq.trans hall.keys)]

end Decoding

section Serialized
variable {V : ValueOutside} {F : SerialFormat} {tags : Doc} {zs zs' : List (CString × Zval)}

/-- A tag set and the array decoded from it. -/
structure TagSetStored (V : ValueOutside) (F : SerialFormat) (f : CString × BsonValue)
    (e : CString × Zval) : Prop where
  key : f.1 = e.1
  fields : ∃ d zs, f.2 = .document d ∧ e.2 = ofFields false zs ∧ StoredAll V F true true d zs

abbrev TagSetsStored (V : ValueOutside) (F : SerialFormat) (tags : Doc)
    (zs : List (CString × Zval)) : Prop := List.Forall₂ (TagSetStored V F) tags zs

theorem tagSets_stored (hV : V.Lawful) {depth : ℕ}
    (hvalid : readPreferenceTagsAreValid tags = true) (ha : acceptsAll V.libbson tags = true)
    (hc : ClassesRestoreAll V true depth true tags) :
    ∃ zs, materialiseAll V.libbson V.userland (nativeMap true) [] [] tags = (zs,[]) ∧
      TagSetsStored V (V.format depth) tags zs := by
  induction tags with
  | nil => exact ⟨[],rfl,.nil⟩
  | cons f tags ih =>
    obtain ⟨key,v⟩ := f
    simp only [readPreferenceTagsAreValid,List.all_cons,Bool.and_eq_true] at hvalid
    simp only [acceptsAll,Bool.and_eq_true] at ha
    obtain ⟨hloads,hv,hrest⟩ := hc
    obtain ⟨zs,hzs,hall⟩ := ih hvalid.2 ha.2 hrest
    cases v with
    | document d =>
      obtain ⟨zs₁,hzs₁,hd⟩ :=
        (stored_spec hV true).2 d ha.1.2 depth true (hv.2 (Or.inl rfl)) ([] ++ [key])
      have hz : materialise V.libbson V.userland (nativeMap true) ([] ++ [key]) [] (.document d) =
          (ofFields false zs₁,[]) := by
        rw [materialise,hzs₁,nativeMap_documentTarget]
        rfl
      refine ⟨(key,ofFields false zs₁)::zs,?_,.cons ⟨rfl,d,zs₁,rfl,rfl,hd⟩ hall⟩
      simp only [materialiseAll,hz,hloads,hzs]
    | _ => cases hvalid.1

namespace TagSetsStored

theorem regular (h : TagSetsStored V F tags zs) : ∀ e ∈ zs, Regular F e.2 := by
  induction h with
  | nil => exact fun e he => absurd he List.not_mem_nil
  | cons hf _ ih =>
    obtain ⟨d,zs₁,-,hz,hd⟩ := hf.fields
    exact List.forall_mem_cons.mpr ⟨hz ▸ regular_ofFields hd.regular,ih⟩

/-- The tag sets that come back are made objects, and encoded as documents. -/
theorem revived (h : TagSetsStored V F tags zs) (hback : comesBackFields F zs = some zs') :
    ∃ ws, WrittenAs V.libbson V.userland (zs'.map fun e => (e.1,prepTagset e.2)) ws ∧
      keys ws = keys tags ∧ (ws = tags ↔ ∀ e ∈ tags, TagSetLasts V e.2) := by
  induction h generalizing zs' with
  | nil =>
    obtain rfl := Option.some.inj hback
    exact ⟨[],.nil,rfl,iff_of_true rfl (by simp)⟩
  | @cons f e tags zs hf _ ih =>
    obtain ⟨key,v⟩ := f
    obtain ⟨key',z⟩ := e
    obtain rfl : key = key' := hf.key
    obtain ⟨d,zs₁,hv,hz,hd⟩ := hf.fields
    obtain rfl : v = .document d := hv
    obtain rfl : z = ofFields false zs₁ := hz
    obtain ⟨z',hz',hrest⟩ := Option.bind_eq_some_iff.mp hback
    obtain ⟨rest,hback',rfl⟩ := Option.map_eq_some_iff.mp hrest
    obtain ⟨zs₂,ws₁,rfl,hws₁,hdoc⟩ := hd.nativeArray hz'
    obtain ⟨ws,hws,hkeys,hiff⟩ := ih hback'
    have hprep : prepTagset (.array none (zs₂.map fun e => (symtable e.1.bytes,e.2))) =
        .object .stdClass none (zs₂.map fun e => (.str e.1.bytes,e.2)) .null := by
      show Zval.convertToObject (.array none (zs₂.map fun e => (symtable e.1.bytes,e.2))) = _
      simp [Zval.convertToObject,Zval.toProptable,Function.comp_def]
    have hw : Writes V.libbson V.userland
        (prepTagset (.array none (zs₂.map fun e => (symtable e.1.bytes,e.2)))) (.document ws₁) := by
      rw [hprep]
      exact writes_object .null (hws₁.fields toStr_str)
    have hset : ws₁ = d ↔ TagSetLasts V (.document d) := hdoc.eq_iff
    refine ⟨(key,.document ws₁)::ws,.cons ⟨rfl,hw⟩ hws,by simp [hkeys],?_⟩
    rw [List.cons.injEq,Prod.mk.injEq,BsonValue.document.injEq,hset,hiff,List.forall_mem_cons]
    simp

theorem lost (h : TagSetsStored V F tags zs) (hback : comesBackFields F zs = none) :
    ¬ ∀ e ∈ tags, TagSetLasts V e.2 := by
  induction h with
  | nil => cases hback
  | @cons f e tags zs hf _ ih =>
    obtain ⟨d,zs₁,hv,hz,hd⟩ := hf.fields
    intro hall
    obtain ⟨hset,hrest⟩ := List.forall_mem_cons.mp hall
    rw [comesBackFields] at hback
    cases hz' : comesBack F e.2 with
    | none =>
      rw [hv] at hset
      exact hd.nativeArray_lost (hz ▸ hz') hset
    | some z' =>
      rw [hz'] at hback
      exact ih (Option.map_eq_none_iff.mp hback) hrest

theorem updated (h : TagSetsStored V F tags zs) :
    TagSetsStored V F (updateAll [] tags) (updateAll [] zs) :=
  forall₂_updateAll (fun _ _ hf => hf.key) .nil h

theorem revivedTags (h : TagSetsStored V F tags zs) {z' : Zval}
    (hback : comesBack F (ofFields false zs) = some z') :
    ∃ els ws, z' = .array none els ∧
      zvalToDoc V.libbson V.userland (.array none (prepTagsets els)) [] = (some ws,[]) ∧
      (ws = [] ↔ tags = []) ∧ (ws = tags ↔ TagsLast V tags) := by
  obtain ⟨zs',hzs,rfl⟩ := Option.map_eq_some_iff.mp ((comesBack_ofFields zs).symm.trans hback)
  obtain ⟨ws,hws,hkeys,hiff⟩ := h.updated.revived hzs
  have hnodup : (keys ws).Nodup := hkeys ▸ nodup_updateAll _ _ List.nodup_nil
  refine ⟨_,ws,rfl,?_,?_,?_⟩
  · have hprep : prepTagsets (zs'.map fun e => (symtable e.1.bytes,e.2)) =
        (zs'.map fun e => (e.1,prepTagset e.2)).map fun e => (symtable e.1.bytes,e.2) := by
      rw [prepTagsets,List.map_map,List.map_map]
      rfl
    rw [hprep]
    exact zvalToDoc_of_yields
      (closeFields_writes (hws.fields toStr_symtable) false (Encoder.init []) rfl rfl)
  · rw [eq_nil_of_keys hkeys,updateAll_eq_nil]
  · constructor
    · intro he
      have hn : (keys tags).Nodup := he ▸ hnodup
      rw [updateAll_self tags hn] at hiff
      exact ⟨hn,hiff.mp he⟩
    · rintro ⟨hn,hall⟩
      rw [updateAll_self tags hn] at hiff
      exact hiff.mpr hall

theorem lostTags (h : TagSetsStored V F tags zs)
    (hback : comesBack F (ofFields false zs) = none) : ¬ TagsLast V tags := by
  rintro ⟨hn,hall⟩
  refine h.updated.lost (Option.map_eq_none_iff.mp ((comesBack_ofFields zs).symm.trans hback)) ?_
  rwa [updateAll_self tags hn]

end TagSetsStored

theorem TagsLast.comesBack (h : TagsLast V tags)
    (hvalid : readPreferenceTagsAreValid tags = true) :
    ComesBackAll V.libbson V.userland true tags := by
  obtain ⟨-,hall⟩ := h
  induction tags with
  | nil => trivial
  | cons f tags ih =>
    obtain ⟨key,v⟩ := f
    simp only [readPreferenceTagsAreValid,List.all_cons,Bool.and_eq_true] at hvalid
    obtain ⟨hv,hrest⟩ := List.forall_mem_cons.mp hall
    refine ⟨?_,ih hvalid.2 hrest⟩
    cases v with
    | document d => exact Or.inr ⟨hv.1,(comesBack_of_lasts V true).2 d true hv.2⟩
    | _ => cases hvalid.1

end Serialized
end ReadPreferenceObject
end Phongo
