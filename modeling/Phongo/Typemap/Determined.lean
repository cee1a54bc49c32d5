import Mathlib.Tactic.Common
import Phongo.Typemap.FieldPaths

/-! What a parsed typemap owes to the values it was parsed from. -/
namespace Phongo
open OrderedTable

namespace Parsing
variable (U : Userland) (S : StringConversion)

/-- The keys and values of `fieldPaths`. -/
def fieldPathsOf (typemap : List (Key × Zval)) : List (Key × Zval) :=
  match find? typemap (.str (ascii "fieldPaths")) with
  | some (.array _ fieldpaths) => fieldpaths
  | _ => []

/-- The type a value asks for; without a value, or with an empty name, none. -/
def meaning (z : Option Zval) : TypemapType × Option ClassEntry := typeNamed U (nameOf S z)

/-- Each type of the state is the one that the value under its own key asks for. -/
structure Determined (typemap : List (Key × Zval)) (state : TypemapState) : Prop where
  array : state.array = meaning U S (find? typemap (.str (ascii "array")))
  document : state.document = meaning U S (find? typemap (.str (ascii "document")))
  root : state.root = meaning U S (find? typemap (.str (ascii "root")))
  fieldPaths : (state.fieldPaths.entries.map fun m => (m.entry.opened,m.type)) =
    (fieldPathsOf typemap).map fun e => (segmentsOf e,meaning U S (some e.2))

/-- No class of the state is missing or cannot be filled. -/
structure Sound (state : TypemapState) : Prop where
  array : Instantiable state.array
  document : Instantiable state.document
  root : Instantiable state.root
  fieldPaths : ∀ m ∈ state.fieldPaths.entries, Instantiable m.type

/-- The value found under the name of the key is set, and asks for what the value of the key
asks for. -/
def FoundAsSet (fieldpaths : List (Key × Zval)) (e : Key × Zval) : Prop :=
  nameOf S (find? fieldpaths (symtable (nameOfKey e).bytes)) ≠ [] ∧
    meaning U S (find? fieldpaths (symtable (nameOfKey e).bytes)) = meaning U S (some e.2)

def Accepted (typemap : List (Key × Zval)) : Prop :=
  ∃ junk eg state eg',
    typemapToState U S junk (some typemap) .zeroed eg = (some state,eg')

variable {U S} {typemap : List (Key × Zval)} {junk : ℕ → TypemapType} {eg eg' : Pending}

theorem parseType_zeroed {name : CString} {type : TypemapType × Option ClassEntry}
    (h : parseType U S typemap name (.none,none) eg = (some type,eg')) :
    ValidName U (nameOf S (find? typemap (symtable name.bytes))) ∧
      type = meaning U S (find? typemap (symtable name.bytes)) := by
  obtain ⟨hvalid,htype⟩ := parseType_some h
  refine ⟨hvalid,?_⟩
  split at htype
  · rename_i hnil
    rw [htype,meaning,hnil,typeNamed_nil]
  · exact htype

theorem parseFieldpaths_some {map : FieldPathMap}
    (h : parseFieldpaths U S junk typemap .zeroed eg = (some map,eg')) :
    (∀ e ∈ fieldPathsOf typemap, AcceptedKey U S (fieldPathsOf typemap) e) ∧
      map.entries.map (fun m => m.entry.opened) = (fieldPathsOf typemap).map segmentsOf ∧
      map.entries.map FieldPathMapElement.type = (fieldPathsOf typemap).zipIdx.map fun p =>
        storedType U S (fieldPathsOf typemap) (junk p.2) p.1 := by
  unfold parseFieldpaths at h
  unfold fieldPathsOf
  cases hfield : find? typemap (.str (ascii "fieldPaths")) with
  | none =>
    rw [hfield] at h
    cases h
    exact ⟨by simp,rfl,rfl⟩
  | some z =>
    rw [hfield] at h
    cases z with
    | array ht fieldpaths =>
      obtain ⟨hkeys,added,hholds,hpaths,htypes⟩ := parseKeys_some FieldPathMap.zeroed_holds h
      rw [hholds.entries_eq,List.nil_append]
      exact ⟨hkeys,hpaths,htypes⟩
    | _ => cases h

/-- Whether the parser accepts the keys does not depend on what the local starts as. -/
theorem parseFieldpaths_again {map : FieldPathMap}
    (h : parseFieldpaths U S junk typemap .zeroed eg = (some map,eg')) (junk' : ℕ → TypemapType)
    (eg₁ : Pending) :
    ∃ map' eg₂, parseFieldpaths U S junk' typemap .zeroed eg₁ = (some map',eg₂) := by
  obtain ⟨hkeys,-,-⟩ := parseFieldpaths_some h
  unfold parseFieldpaths at h ⊢
  unfold fieldPathsOf at hkeys
  cases hfield : find? typemap (.str (ascii "fieldPaths")) with
  | none => exact ⟨_,_,rfl⟩
  | some z =>
    rw [hfield] at h hkeys
    cases z with
    | array ht fieldpaths => exact parseKeys_of_accepted 0 .zeroed hkeys eg₁
    | _ => cases h

/-- Apart from the field paths, an accepted typemap leaves nothing to what was there before. -/
theorem typemapToState_some {state : TypemapState}
    (h : typemapToState U S junk (some typemap) .zeroed eg = (some state,eg')) :
    (ValidName U (nameOf S (find? typemap (.str (ascii "array")))) ∧
      state.array = meaning U S (find? typemap (.str (ascii "array")))) ∧
    (ValidName U (nameOf S (find? typemap (.str (ascii "document")))) ∧
      state.document = meaning U S (find? typemap (.str (ascii "document")))) ∧
    (ValidName U (nameOf S (find? typemap (.str (ascii "root")))) ∧
      state.root = meaning U S (find? typemap (.str (ascii "root")))) ∧
    ∃ eg₁ eg₂, parseFieldpaths U S junk typemap .zeroed eg₁ = (some state.fieldPaths,eg₂) := by
  obtain ⟨array,eg₁,harray,h⟩ := Attempt.bind_eq_some.mp h
  obtain ⟨document,eg₂,hdocument,h⟩ := Attempt.bind_eq_some.mp h
  obtain ⟨root,eg₃,hroot,h⟩ := Attempt.bind_eq_some.mp h
  obtain ⟨map,eg₄,hmap,h⟩ := Attempt.bind_eq_some.mp h
  cases h
  exact ⟨parseType_zeroed harray,parseType_zeroed hdocument,parseType_zeroed hroot,eg₃,_,hmap⟩

theorem typemapToState_of_valid
    (harray : ValidName U (nameOf S (find? typemap (.str (ascii "array")))))
    (hdocument : ValidName U (nameOf S (find? typemap (.str (ascii "document")))))
    (hroot : ValidName U (nameOf S (find? typemap (.str (ascii "root")))))
    (hmap : ∀ eg, ∃ map eg', parseFieldpaths U S junk typemap .zeroed eg = (some map,eg'))
    (eg : Pending) :
    ∃ state eg', typemapToState U S junk (some typemap) .zeroed eg = (some state,eg') := by
  obtain ⟨array,eg₁,harray⟩ := parseType_of_valid (CString.lit "array") harray
    TypemapState.zeroed.array eg
  obtain ⟨document,eg₂,hdocument⟩ := parseType_of_valid (CString.lit "document") hdocument
    TypemapState.zeroed.document eg₁
  obtain ⟨root,eg₃,hroot⟩ := parseType_of_valid (CString.lit "root") hroot
    TypemapState.zeroed.root eg₂
  obtain ⟨map,eg₄,hmap⟩ := hmap eg₃
  exact ⟨⟨document,array,root,map⟩,eg₄,(Attempt.bind_of_some harray).trans
    ((Attempt.bind_of_some hdocument).trans
      ((Attempt.bind_of_some hroot).trans (Attempt.bind_of_some hmap)))⟩

theorem typemapToState_again {state : TypemapState}
    (h : typemapToState U S junk (some typemap) .zeroed eg = (some state,eg'))
    (junk' : ℕ → TypemapType) (eg₁ : Pending) :
    ∃ state' eg₂, typemapToState U S junk' (some typemap) .zeroed eg₁ = (some state',eg₂) := by
  obtain ⟨⟨harray,-⟩,⟨hdocument,-⟩,⟨hroot,-⟩,eg₃,eg₄,hmap⟩ := typemapToState_some h
  exact typemapToState_of_valid harray hdocument hroot (parseFieldpaths_again hmap junk') eg₁

/-- What is stored for a key is what its value asks for, whatever the local starts as, exactly
for a key found as set. -/
theorem storedType_eq_iff (fieldpaths : List (Key × Zval)) (e : Key × Zval) :
    (∀ junk, storedType U S fieldpaths junk e = meaning U S (some e.2)) ↔
      FoundAsSet U S fieldpaths e := by
  unfold storedType FoundAsSet
  split
  · rename_i hnil
    refine ⟨fun h => ?_,fun h => absurd hnil h.1⟩
    have harray := congrArg Prod.fst (h .nativeArray)
    have hobject := congrArg Prod.fst (h .nativeObject)
    rw [← harray] at hobject
    cases hobject
  · rename_i hset
    exact ⟨fun h => ⟨hset,h .none⟩,fun h junk => h.2⟩

theorem sound_of_foundAsSet {state : TypemapState}
    (h : typemapToState U S junk (some typemap) .zeroed eg = (some state,eg'))
    (hset : ∀ e ∈ fieldPathsOf typemap, FoundAsSet U S (fieldPathsOf typemap) e) :
    Sound state := by
  obtain ⟨⟨hvarray,harray⟩,⟨hvdocument,hdocument⟩,⟨hvroot,hroot⟩,eg₁,eg₂,hmap⟩ :=
    typemapToState_some h
  refine ⟨?_,?_,?_,fun m hm => ?_⟩
  · rw [harray]
    exact instantiable_typeNamed hvarray
  · rw [hdocument]
    exact instantiable_typeNamed hvdocument
  · rw [hroot]
    exact instantiable_typeNamed hvroot
  · obtain ⟨hkeys,-,htypes⟩ := parseFieldpaths_some hmap
    have hmem := List.mem_map_of_mem (f:=FieldPathMapElement.type) hm
    rw [htypes] at hmem
    obtain ⟨p,hp,hstored⟩ := List.mem_map.mp hmem
    have he : p.1 ∈ fieldPathsOf typemap := List.fst_mem_of_mem_zipIdx hp
    rw [← hstored,storedType,if_neg (hset p.1 he).1]
    exact instantiable_typeNamed (hkeys p.1 he).valid

theorem map_zipIdx_eq_iff {α β : Type} (l : List α) (f : α × ℕ → β) (g : α → β) :
    l.zipIdx.map f = l.map g ↔ ∀ p ∈ l.zipIdx, f p = g p.1 := by
  have hg : l.map g = l.zipIdx.map fun p => g p.1 := by
    conv_lhs => rw [← List.zipIdx_map_fst 0 l]
    rw [List.map_map]
    rfl
  rw [hg,List.map_inj_left]

/-- A state is determined where every key has stored what its value asks for. -/
theorem determined_iff {state : TypemapState}
    (h : typemapToState U S junk (some typemap) .zeroed eg = (some state,eg')) :
    Determined U S typemap state ↔ ∀ p ∈ (fieldPathsOf typemap).zipIdx,
      storedType U S (fieldPathsOf typemap) (junk p.2) p.1 = meaning U S (some p.1.2) := by
  obtain ⟨⟨-,harray⟩,⟨-,hdocument⟩,⟨-,hroot⟩,eg₁,eg₂,hmap⟩ := typemapToState_some h
  obtain ⟨-,hpaths,htypes⟩ := parseFieldpaths_some hmap
  have hpair : ∀ types : List (TypemapType × Option ClassEntry),
      state.fieldPaths.entries.map FieldPathMapElement.type = types →
      state.fieldPaths.entries.map (fun m => (m.entry.opened,m.type)) =
        ((fieldPathsOf typemap).map segmentsOf).zip types := by
    rintro types rfl
    rw [← hpaths]
    exact List.zip_map'.symm
  have hsplit : (state.fieldPaths.entries.map (fun m => (m.entry.opened,m.type)) =
      (fieldPathsOf typemap).map fun e => (segmentsOf e,meaning U S (some e.2))) ↔
      state.fieldPaths.entries.map FieldPathMapElement.type =
        (fieldPathsOf typemap).map fun e => meaning U S (some e.2) := by
    constructor
    · intro heq
      have hsnd := congrArg (List.map Prod.snd) heq
      rwa [List.map_map,List.map_map] at hsnd
    · intro htype
      rw [hpair _ htype]
      exact List.zip_map'
  rw [htypes,map_zipIdx_eq_iff] at hsplit
  exact ⟨fun hd => hsplit.mp hd.fieldPaths,
    fun hstored => ⟨harray,hdocument,hroot,hsplit.mpr hstored⟩⟩

/-- A typemap decides the parsed state exactly where every key of `fieldPaths` is found under
its name with a value that is set. -/
theorem typemap_determined_iff (h : Accepted U S typemap) :
    (∀ junk eg state eg',
      typemapToState U S junk (some typemap) .zeroed eg = (some state,eg') →
        Determined U S typemap state ∧ Sound state) ↔
      ∀ e ∈ fieldPathsOf typemap, FoundAsSet U S (fieldPathsOf typemap) e := by
  constructor
  · intro hall e he
    refine (storedType_eq_iff _ e).mp fun junk => ?_
    obtain ⟨junk',eg,state,eg',hstate⟩ := h
    obtain ⟨state',eg₁,hagain⟩ := typemapToState_again hstate (fun _ => junk) eg
    have hdetermined := (hall _ _ _ _ hagain).1
    obtain ⟨i,hi⟩ := List.mem_iff_getElem?.mp he
    exact (determined_iff hagain).mp hdetermined (e,i) (List.mk_mem_zipIdx_iff_getElem?.mpr hi)
  · intro hset junk eg state eg' hstate
    refine ⟨(determined_iff hstate).mpr fun p hp => ?_,sound_of_foundAsSet hstate hset⟩
    have hfound := hset p.1 (List.fst_mem_of_mem_zipIdx hp)
    exact (storedType_eq_iff _ p.1).mpr hfound (junk p.2)

section Examples

/-- The class of key `a`, and whatever `z` asks for of key `b`. -/
def typemapOf (z : Zval) : List (Key × Zval) :=
  [(.str (ascii "fieldPaths"),.array none [(.str (ascii "a"),.string (ascii "Person")),
    (.str (ascii "b"),z)])]

theorem typemapToState_typemapOf {z : Zval}
    (hz : ValidName (.keeping .person) (nameOf .plain (some z))) (junk : ℕ → TypemapType) :
    ∃ state eg', typemapToState (.keeping .person) .plain junk (some (typemapOf z)) .zeroed [] =
      (some state,eg') := by
  refine typemapToState_of_valid (.inl rfl) (.inl rfl) (.inl rfl) (fun eg => ?_) []
  refine parseKeys_of_accepted 0 .zeroed (fun e he => ?_) eg
  rcases List.mem_cons.mp he with rfl | he
  · exact ⟨⟨_,rfl⟩,by decide,by unfold NoEmptySegment; decide,
      .inr (.inr ⟨.person,by rfl,rfl,rfl⟩)⟩
  · have hname : (nameOfKey (.str (ascii "b"),z)).bytes = ascii "b" := rfl
    have hfind : find? (fieldPathsOf (typemapOf z)) (symtable (ascii "b")) = some z := rfl
    rw [List.mem_singleton.mp he]
    refine ⟨⟨_,rfl⟩,?_,?_,?_⟩
    · rw [hname]
      decide
    · rw [hname]
      unfold NoEmptySegment
      decide
    · rw [hname]
      exact hfind ▸ hz

theorem determined_array : ∃ state eg',
    typemapToState (.keeping .person) .plain (fun _ => .class)
      (some (typemapOf (.string (ascii "array")))) .zeroed [] = (some state,eg') ∧
    Determined (.keeping .person) .plain (typemapOf (.string (ascii "array"))) state ∧
      Sound state := by
  obtain ⟨state,eg',h⟩ := typemapToState_typemapOf (z:=.string (ascii "array"))
    (.inr (.inl (by decide))) fun _ => .class
  have hset : ∀ e ∈ fieldPathsOf (typemapOf (.string (ascii "array"))),
      FoundAsSet (.keeping .person) .plain
        (fieldPathsOf (typemapOf (.string (ascii "array")))) e := by
    intro e he
    rcases List.mem_cons.mp he with rfl | he
    · exact ⟨by decide,rfl⟩
    · rw [List.mem_singleton.mp he]
      exact ⟨by decide,rfl⟩
  exact ⟨state,eg',h,(typemap_determined_iff ⟨_,_,_,_,h⟩).mpr hset _ _ _ _ h⟩

/-- The local still holds the type of key `a`; key `b` gets it without the class. -/
theorem not_determined_null : ∃ state eg',
    typemapToState (.keeping .person) .plain (fun _ => .class) (some (typemapOf .null)) .zeroed [] =
      (some state,eg') ∧
    ¬ Determined (.keeping .person) .plain (typemapOf .null) state ∧ ¬ Sound state := by
  obtain ⟨state,eg',h⟩ := typemapToState_typemapOf (z:=.null) (.inl rfl) fun _ => .class
  have hb : ((.str (ascii "b"),.null),1) ∈ (fieldPathsOf (typemapOf .null)).zipIdx :=
    List.mk_mem_zipIdx_iff_getElem?.mpr rfl
  refine ⟨state,eg',h,fun hd => ?_,fun hs => ?_⟩
  · have hstored := congrArg Prod.fst ((determined_iff h).mp hd _ hb)
    cases hstored
  · obtain ⟨-,-,-,eg₁,eg₂,hmap⟩ := typemapToState_some h
    obtain ⟨-,-,htypes⟩ := parseFieldpaths_some hmap
    have hmem := List.mem_map_of_mem hb (f:=fun p => storedType (.keeping .person) .plain
      (fieldPathsOf (typemapOf .null)) .class p.1)
    rw [← htypes] at hmem
    obtain ⟨m,hm,htype⟩ := List.mem_map.mp hmem
    have hclass : m.type = (.class,none) := htype
    obtain ⟨ce,hce,-⟩ := hs.fieldPaths m hm (by rw [hclass])
    rw [hclass] at hce
    cases hce

end Examples

end Parsing
end Phongo
