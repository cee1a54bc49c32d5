import Mathlib.Tactic.Common
import Phongo.Typemap.Types

/-! The keys of `fieldPaths`: which are accepted, and what the map holds of them. -/
namespace Phongo
open OrderedTable

def FieldPathMapElement.type (m : FieldPathMapElement) : TypemapType × Option ClassEntry :=
  (m.nodeType,m.nodeCe)

def FieldPathMapElement.joined (m : FieldPathMapElement) : Bytes :=
  [46].intercalate (m.entry.opened.map CString.bytes)

namespace FieldPathMap

/-- `m` is a well-formed map of `entries`. -/
structure Holds (m : FieldPathMap) (entries : List FieldPathMapElement) : Prop where
  length_map : m.map.length = m.allocatedSize
  size_eq : m.size = entries.length
  size_le : m.size ≤ m.allocatedSize
  take_size : m.map.take m.size = entries.map some

theorem zeroed_holds : zeroed.Holds [] := by constructor <;> simp [zeroed]

variable {m : FieldPathMap} {entries : List FieldPathMapElement}

theorem Holds.entries_eq (h : m.Holds entries) : m.entries = entries := by
  simp [FieldPathMap.entries,h.take_size,List.filterMap_map]

theorem length_realloc (xs : List (Option FieldPathMapElement)) {n : ℕ} (h : xs.length ≤ n) :
    (realloc xs n).length = n := by
  simp [realloc]; omega

theorem take_realloc (xs : List (Option FieldPathMapElement)) {k n : ℕ} (hk : k ≤ xs.length)
    (h : xs.length ≤ n) : (realloc xs n).take k = xs.take k := by
  rw [realloc,List.take_of_length_le h,List.take_append_of_le_length hk]

/-- Growing keeps what the map holds and makes room for one more. -/
theorem Holds.ensureAllocation (h : m.Holds entries) :
    m.ensureAllocation.Holds entries ∧
      m.ensureAllocation.size < m.ensureAllocation.allocatedSize := by
  obtain ⟨hlen,hsize,hle,htake⟩ := h
  unfold FieldPathMap.ensureAllocation
  split
  · have hgrow : m.map.length ≤ m.allocatedSize + fieldPathExpansion := by omega
    refine ⟨⟨length_realloc _ hgrow,hsize,?_,?_⟩,?_⟩
    · show m.size ≤ m.allocatedSize + fieldPathExpansion
      omega
    · show (realloc m.map _).take m.size = _
      rw [take_realloc _ (by omega) hgrow,htake]
    · show m.size < m.allocatedSize + 8
      omega
  · exact ⟨⟨hlen,hsize,hle,htake⟩,by omega⟩

theorem Holds.addElement (h : m.Holds entries) (element : FieldPathMapElement) :
    (m.addElement element).Holds (entries ++ [element]) := by
  obtain ⟨⟨hlen,hsize,hle,htake⟩,hroom⟩ := h.ensureAllocation
  refine ⟨?_,?_,hroom,?_⟩
  · show (m.ensureAllocation.map.set _ _).length = m.ensureAllocation.allocatedSize
    rw [List.length_set,hlen]
  · show m.ensureAllocation.size + 1 = _
    rw [hsize,List.length_append,List.length_singleton]
  · show (m.ensureAllocation.map.set _ _).take (m.ensureAllocation.size + 1) = _
    have hslot : m.ensureAllocation.size < m.ensureAllocation.map.length := by omega
    rw [List.take_add_one,List.take_set_of_le (Nat.le_refl _),htake,List.map_append]
    simp [hslot]

end FieldPathMap

namespace Parsing

/-- A key the splitter takes: none of its segments is empty. -/
def NoEmptySegment (key : Bytes) : Prop := ∀ segment ∈ key.splitOn 46, segment ≠ []

theorem splitOn_of_strchr_none {s : Bytes} (h : strchr 46 s = none) : s.splitOn 46 = [s] :=
  List.splitOn_eq_singleton (strchr_eq_none h)

theorem splitOn_of_strchr_some {s segment rest : Bytes} (h : strchr 46 s = some (segment,rest)) :
    s.splitOn 46 = segment::rest.splitOn 46 := by
  obtain ⟨rfl,hseg⟩ := strchr_eq_some h
  exact List.splitOn_append_cons_self_of_not_mem hseg rest

theorem splitSegments_isSome_iff (entry : OwnedPath) (ptr : Bytes) :
    (splitSegments entry ptr).isSome ↔ ∀ segment ∈ (ptr.splitOn 46).dropLast, segment ≠ [] := by
  induction entry,ptr using splitSegments.induct with
  | case1 entry ptr h =>
    rw [splitSegments,splitOn_of_strchr_none h]
    split <;> simp_all
  | case2 entry ptr rest h =>
    have hne := List.splitOn_ne_nil 46 rest
    rw [splitSegments,splitOn_of_strchr_some h,List.dropLast_cons_of_ne_nil hne]
    split <;> simp_all
  | case3 entry ptr segment rest h hseg ih =>
    have hne := List.splitOn_ne_nil 46 rest
    rw [splitSegments,splitOn_of_strchr_some h,List.dropLast_cons_of_ne_nil hne]
    split <;> simp_all

theorem opened_splitSegments {entry path : OwnedPath} {ptr : Bytes}
    (h : splitSegments entry ptr = some path) :
    path.1.opened = entry.1.opened ++ (ptr.splitOn 46).map CString.ofBytes := by
  induction entry,ptr using splitSegments.induct with
  | case1 entry ptr hs =>
    rw [splitSegments] at h
    split at h
    · cases h
      rw [splitOn_of_strchr_none hs,OwnedPath.opened_push,List.map_singleton]
    · simp_all
  | case2 entry ptr rest hs =>
    rw [splitSegments] at h
    split at h <;> simp_all
  | case3 entry ptr segment rest hs hseg ih =>
    have hrec : splitSegments (entry.push (CString.ofBytes segment)) rest = some path := by
      rw [splitSegments] at h
      split at h <;> simp_all
    rw [ih hrec,OwnedPath.opened_push,splitOn_of_strchr_some hs,List.map_cons,List.append_assoc,
      List.singleton_append]

theorem getLast_splitOn {key : Bytes} (hne : key ≠ []) (hdot : key.getLast? ≠ some 46) :
    ∀ segment ∈ (key.splitOn 46).getLast?, segment ≠ [] := by
  induction hn : key.length using Nat.strong_induction_on generalizing key with
  | _ n ih =>
    cases hs : strchr 46 key with
    | none =>
      rw [splitOn_of_strchr_none hs]
      rintro segment hsegment rfl
      exact hne (Option.some.inj hsegment)
    | some r =>
      obtain ⟨segment,rest⟩ := r
      obtain ⟨hkey,-⟩ := strchr_eq_some hs
      have hrest : rest ≠ [] := by
        rintro rfl
        exact hdot (by simp [hkey])
      have hlast : key.getLast? = rest.getLast? := by
        rw [hkey,List.append_cons,List.getLast?_append_of_ne_nil _ hrest]
      have hshort := length_strchr hs
      have hsplit : (key.splitOn 46).getLast? = (rest.splitOn 46).getLast? := by
        rw [splitOn_of_strchr_some hs,List.getLast?_cons]
        cases h : (rest.splitOn 46).getLast? with
        | none => exact absurd (List.getLast?_eq_none_iff.mp h) (List.splitOn_ne_nil 46 rest)
        | some segment => rfl
      rw [hsplit]
      exact ih rest.length (hn ▸ hshort) hrest (hlast ▸ hdot) rfl

theorem noEmptySegment_iff {key : Bytes} (hne : key ≠ []) : NoEmptySegment key ↔
    key.head? ≠ some 46 ∧ key.getLast? ≠ some 46 ∧
      ∀ segment ∈ (key.splitOn 46).dropLast, segment ≠ [] := by
  constructor
  · intro h
    refine ⟨fun hhead => ?_,fun hlast => ?_,fun segment hs => h segment (List.dropLast_subset _ hs)⟩
    · obtain ⟨rest,rfl⟩ := List.head?_eq_some_iff.mp hhead
      have hsplit : (46::rest).splitOn 46 = []::rest.splitOn 46 :=
        List.splitOn_append_cons_self_of_not_mem List.not_mem_nil rest
      exact h [] (hsplit ▸ List.mem_cons_self) rfl
    · obtain ⟨start,rfl⟩ := List.getLast?_eq_some_iff.mp hlast
      have hsplit : (start ++ [46]).splitOn 46 = start.splitOn 46 ++ [[]] :=
        List.splitOn_append_cons_self start []
      exact h [] (hsplit ▸ List.mem_append_right _ (List.mem_singleton_self [])) rfl
  · rintro ⟨-,hlast,hloop⟩ segment hs
    have hsplit := List.splitOn_ne_nil 46 key
    rw [← List.dropLast_append_getLast hsplit] at hs
    rcases List.mem_append.mp hs with hs | hs
    · exact hloop segment hs
    · refine getLast_splitOn hne hlast segment ?_
      rw [List.mem_singleton.mp hs]
      exact List.getLast?_eq_some_getLast hsplit

variable {U : Userland} {S : StringConversion} {eg eg' : Pending}

/-- What the map keeps of an accepted key, and which keys those are. -/
theorem addFieldPath_some {map map' : FieldPathMap} {name : CString} (hne : name.bytes ≠ [])
    {type : TypemapType × Option ClassEntry}
    (h : addFieldPath map name type eg = (some map',eg')) :
    NoEmptySegment name.bytes ∧ ∃ m : FieldPathMapElement, map' = map.addElement m ∧
      (m.nodeType,m.nodeCe) = type ∧
      m.entry.opened = (name.bytes.splitOn 46).map CString.ofBytes := by
  unfold addFieldPath at h
  split at h
  · cases h
  split at h
  · cases h
  rename_i hhead hlast
  cases hsplit : splitSegments .alloc name.bytes with
  | none =>
    rw [hsplit] at h
    cases h
  | some entry =>
  rw [hsplit] at h
  cases h
  refine ⟨(noEmptySegment_iff hne).mpr ⟨hhead,hlast,?_⟩,_,rfl,rfl,opened_splitSegments hsplit⟩
  exact (splitSegments_isSome_iff _ _).mp (by rw [hsplit]; rfl)

theorem addFieldPath_of_noEmptySegment (map : FieldPathMap) {name : CString}
    (hne : name.bytes ≠ []) (h : NoEmptySegment name.bytes)
    (type : TypemapType × Option ClassEntry) (eg : Pending) :
    ∃ map', addFieldPath map name type eg = (some map',eg) := by
  obtain ⟨hhead,hlast,hloop⟩ := (noEmptySegment_iff hne).mp h
  obtain ⟨entry,hsplit⟩ :=
    Option.isSome_iff_exists.mp ((splitSegments_isSome_iff OwnedPath.alloc name.bytes).mpr hloop)
  refine ⟨map.addElement ⟨entry.1,type.1,type.2,entry.2⟩,?_⟩
  rw [addFieldPath,if_neg hhead,if_neg hlast,hsplit]
  rfl

/-- The name under which a key is parsed: up to its first NUL byte. -/
def nameOfKey (e : Key × Zval) : CString := CString.ofBytes e.1.toStr

/-- A key and the type its name leads to are accepted. -/
structure AcceptedKey (U : Userland) (S : StringConversion) (fieldpaths : List (Key × Zval))
    (e : Key × Zval) : Prop where
  isString : ∃ key, e.1 = .str key
  nonempty : (nameOfKey e).bytes ≠ []
  noEmptySegment : NoEmptySegment (nameOfKey e).bytes
  valid : ValidName U (nameOf S (find? fieldpaths (symtable (nameOfKey e).bytes)))

/-- What is stored for a key, where the local for its type starts as `junk`. -/
def storedType (U : Userland) (S : StringConversion) (fieldpaths : List (Key × Zval))
    (junk : TypemapType) (e : Key × Zval) : TypemapType × Option ClassEntry :=
  if nameOf S (find? fieldpaths (symtable (nameOfKey e).bytes)) = [] then (junk,none)
  else typeAt U S fieldpaths (nameOfKey e)

def segmentsOf (e : Key × Zval) : List CString :=
  ((nameOfKey e).bytes.splitOn 46).map CString.ofBytes

variable {junk : ℕ → TypemapType} {fieldpaths rest : List (Key × Zval)} {i : ℕ}
  {map map' : FieldPathMap} {entries : List FieldPathMapElement}

/-- The loop adds one element for each key it still has to go through. -/
theorem parseKeys_some (hmap : map.Holds entries)
    (h : parseKeys U S junk fieldpaths i rest map eg = (some map',eg')) :
    (∀ e ∈ rest, AcceptedKey U S fieldpaths e) ∧ ∃ added, map'.Holds (entries ++ added) ∧
      added.map (fun m => m.entry.opened) = rest.map segmentsOf ∧
      added.map FieldPathMapElement.type =
        (rest.zipIdx i).map fun p => storedType U S fieldpaths (junk p.2) p.1 := by
  induction rest generalizing i map entries eg with
  | nil =>
    cases h
    exact ⟨by simp,[],by rwa [List.append_nil],rfl,rfl⟩
  | cons e rest ih =>
    obtain ⟨key,z⟩ := e
    cases key with
    | int n => cases h
    | str key =>
      rw [parseKeys] at h
      split at h
      · cases h
      rename_i hne
      obtain ⟨type,eg₁,htype,h⟩ := Attempt.bind_eq_some.mp h
      obtain ⟨map₁,eg₂,hadd,h⟩ := Attempt.bind_eq_some.mp h
      obtain ⟨hvalid,htype⟩ := parseType_some htype
      obtain ⟨hseg,m,rfl,hm,hopened⟩ := addFieldPath_some hne hadd
      obtain ⟨hrest,added,hholds,hpaths,htypes⟩ := ih (hmap.addElement m) h
      refine ⟨?_,m::added,by simpa using hholds,?_,?_⟩
      · intro e he
        rcases List.mem_cons.mp he with rfl | he
        · exact ⟨⟨key,rfl⟩,hne,hseg,hvalid⟩
        · exact hrest e he
      · rw [List.map_cons,List.map_cons,hpaths,hopened]
        rfl
      · have hstored : m.type = storedType U S fieldpaths (junk i) (.str key,z) := hm.trans htype
        rw [List.zipIdx_cons,List.map_cons,List.map_cons,htypes,hstored]

theorem parseKeys_of_accepted (i : ℕ) (map : FieldPathMap)
    (h : ∀ e ∈ rest, AcceptedKey U S fieldpaths e) (eg : Pending) :
    ∃ map' eg', parseKeys U S junk fieldpaths i rest map eg = (some map',eg') := by
  induction rest generalizing i map eg with
  | nil => exact ⟨map,eg,rfl⟩
  | cons e rest ih =>
    obtain ⟨⟨key,hkey⟩,hne,hseg,hvalid⟩ := h e List.mem_cons_self
    obtain ⟨k,z⟩ := e
    cases hkey
    obtain ⟨type,eg₁,htype⟩ := parseType_of_valid _ hvalid (junk i,none) eg
    obtain ⟨map₁,hadd⟩ := addFieldPath_of_noEmptySegment map hne hseg type eg₁
    obtain ⟨map',eg',hrest⟩ :=
      ih (i+1) map₁ (fun e he => h e (List.mem_cons_of_mem _ he)) eg₁
    refine ⟨map',eg',?_⟩
    have hstep : parseKeys U S junk fieldpaths i ((.str key,z)::rest) map eg =
        (parseType U S fieldpaths (nameOfKey (.str key,z)) (junk i,none) >>= fun type =>
          addFieldPath map (nameOfKey (.str key,z)) type >>= fun map =>
            parseKeys U S junk fieldpaths (i+1) rest map) eg := by
      rw [parseKeys]
      exact congrFun (if_neg hne) eg
    rw [hstep,Attempt.bind_of_some htype,Attempt.bind_of_some hadd,hrest]

theorem mem_of_mem_splitOn {s segment : Bytes} {b : UInt8} (h : segment ∈ s.splitOn 46)
    (hb : b ∈ segment) : b ∈ s := by
  induction s generalizing segment with
  | nil =>
    rw [List.splitOn_nil,List.mem_singleton] at h
    rwa [h] at hb
  | cons c s ih =>
    rw [List.splitOn_cons_eq_if_modifyHead] at h
    split at h
    · rcases List.mem_cons.mp h with rfl | h
      · cases hb
      · exact List.mem_cons_of_mem c (ih h hb)
    · obtain ⟨first,others,hsplit⟩ := List.exists_cons_of_ne_nil (List.splitOn_ne_nil 46 s)
      rw [hsplit,List.modifyHead_cons] at h
      rcases List.mem_cons.mp h with rfl | h
      · rcases List.mem_cons.mp hb with rfl | hb
        · exact List.mem_cons_self
        · exact List.mem_cons_of_mem c (ih (hsplit ▸ List.mem_cons_self) hb)
      · exact List.mem_cons_of_mem c (ih (hsplit ▸ List.mem_cons_of_mem first h) hb)

theorem join_segments (name : CString) :
    [46].intercalate (((name.bytes.splitOn 46).map CString.ofBytes).map CString.bytes) =
      name.bytes := by
  have hid : (name.bytes.splitOn 46).map (fun s => (CString.ofBytes s).bytes) =
      name.bytes.splitOn 46 := by
    conv_rhs => rw [← List.map_id (name.bytes.splitOn 46)]
    exact List.map_congr_left fun s hs =>
      CString.bytes_ofBytes_of_notMem s fun hz => name.zero_notMem (mem_of_mem_splitOn hs hz)
  rw [List.map_map,Function.comp_def,hid,List.intercalate_splitOn]

/-- On keys without NUL bytes and values that name types, exactly the keys without an empty
segment are accepted, and the map then holds them all, in order. -/
theorem parseFieldpaths_iff {typemap : List (Key × Zval)} {ht : Option ℕ}
    {fieldpaths : List (Key × Zval)}
    (hfield : find? typemap (.str (ascii "fieldPaths")) = some (.array ht fieldpaths))
    (hkeys : ∀ e ∈ fieldpaths, ∃ key, e.1 = .str key ∧ (0 : UInt8) ∉ key)
    (hvalid : ∀ e ∈ fieldpaths, ValidName U (nameOf S (some e.2)))
    (junk : ℕ → TypemapType) (eg : Pending) :
    ((∃ map eg', parseFieldpaths U S junk typemap .zeroed eg = (some map,eg')) ↔
      ∀ e ∈ fieldpaths, e.1.toStr ≠ [] ∧ NoEmptySegment e.1.toStr) ∧
    ∀ map eg', parseFieldpaths U S junk typemap .zeroed eg = (some map,eg') →
      map.entries.map FieldPathMapElement.joined = fieldpaths.map fun e => e.1.toStr := by
  have hname : ∀ e ∈ fieldpaths, (nameOfKey e).bytes = e.1.toStr := by
    intro e he
    obtain ⟨key,hkey,hz⟩ := hkeys e he
    rw [nameOfKey,hkey]
    exact CString.bytes_ofBytes_of_notMem key hz
  have hparse : ∀ eg, parseFieldpaths U S junk typemap .zeroed eg =
      parseKeys U S junk fieldpaths 0 fieldpaths .zeroed eg := by
    intro eg
    rw [parseFieldpaths,hfield]
  have hlookup : ∀ name, ValidName U (nameOf S (find? fieldpaths name)) := by
    intro name
    cases hz : find? fieldpaths name with
    | none => exact .inl rfl
    | some z => exact hvalid _ (mem_of_find?_eq_some _ _ _ hz)
  simp only [hparse]
  refine ⟨⟨?_,?_⟩,?_⟩
  · rintro ⟨map,eg',h⟩ e he
    have haccepted := (parseKeys_some FieldPathMap.zeroed_holds h).1 e he
    rw [← hname e he]
    exact ⟨haccepted.nonempty,haccepted.noEmptySegment⟩
  · intro h
    refine parseKeys_of_accepted 0 .zeroed (fun e he => ?_) eg
    obtain ⟨hne,hseg⟩ := h e he
    obtain ⟨key,hkey,-⟩ := hkeys e he
    rw [← hname e he] at hne hseg
    exact ⟨⟨key,hkey⟩,hne,hseg,hlookup _⟩
  · intro map eg' h
    obtain ⟨-,added,hholds,hpaths,-⟩ := parseKeys_some FieldPathMap.zeroed_holds h
    rw [hholds.entries_eq,List.nil_append]
    have hjoin : added.map FieldPathMapElement.joined = (added.map fun m => m.entry.opened).map
        fun segments => [46].intercalate (segments.map CString.bytes) := by
      rw [List.map_map]
      rfl
    rw [hjoin,hpaths,List.map_map]
    refine List.map_congr_left fun e he => ?_
    show [46].intercalate ((segmentsOf e).map CString.bytes) = e.1.toStr
    rw [← hname e he,segmentsOf,join_segments]

theorem parseFieldpaths_nested : ∃ map eg',
    parseFieldpaths (.keeping .person) .plain (fun _ => .none)
      [(.str (ascii "fieldPaths"),.array none [(.str (ascii "a.b"),.string (ascii "array"))])]
      .zeroed [] = (some map,eg') := by
  refine (parseFieldpaths_iff rfl ?_ ?_ _ _).1.mpr ?_
  · intro e he
    rw [List.mem_singleton.mp he]
    exact ⟨_,rfl,by decide⟩
  · intro e he
    rw [List.mem_singleton.mp he]
    exact .inr (.inl (by decide))
  · intro e he
    rw [List.mem_singleton.mp he]
    exact ⟨by decide,by unfold NoEmptySegment; decide⟩

end Parsing
end Phongo
