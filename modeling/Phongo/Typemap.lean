import Mathlib.Tactic.Common
import Phongo.FieldPath
import Phongo.Php.Value

/-! Typemaps: which PHP type a BSON root, document or array becomes. -/
namespace Phongo

/-- `php_phongo_bson_typemap_types` -/
inductive TypemapType
  | none | «class» | nativeArray | nativeObject
  deriving DecidableEq

/-- `php_phongo_field_path_map_element`; its path was pushed segment by segment. -/
structure FieldPathMapElement where
  entry : FieldPath
  nodeType : TypemapType
  nodeCe : Option ClassEntry
  entry_holds : entry.Holds entry.opened

/-- `php_phongo_bson_typemap` -/
structure Typemap where
  documentType : TypemapType
  document : Option ClassEntry
  arrayType : TypemapType
  array : Option ClassEntry
  rootType : TypemapType
  root : Option ClassEntry
  fieldPaths : List FieldPathMapElement

def Typemap.default : Typemap := ⟨.none,none,.none,none,.none,none,[]⟩

/-- The `for` loop of `map_element_matches_field_path` from index `i` on, `n` steps. -/
def elementsMatch (entry current : List (Option CString)) : ℕ → ℕ → Bool
  | _, 0 => true
  | i, n+1 =>
    match entry[i]?.join, current[i]?.join with
    | some segment, some key =>
      if segment = CString.lit "$" then elementsMatch entry current (i+1) n
      else if segment ≠ key then false
      else elementsMatch entry current (i+1) n
    | _, _ => false

def mapElementMatchesFieldPath (m : FieldPathMapElement) (current : FieldPath) : Bool :=
  if m.entry.size ≠ current.size then false
  else elementsMatch m.entry.elements current.elements 0 current.size

def mapFindFieldPathEntry (fieldPaths : List FieldPathMapElement) (current : FieldPath) :
    Option FieldPathMapElement :=
  fieldPaths.find? fun m => mapElementMatchesFieldPath m current

/-- `php_phongo_handle_field_path_entry_for_compound_type` on the type and class `t`. -/
def handleFieldPathEntryForCompoundType (map : Typemap) (current : FieldPath)
    (t : TypemapType × Option ClassEntry) : TypemapType × Option ClassEntry :=
  match mapFindFieldPathEntry map.fieldPaths current with
  | none => t
  | some m =>
    match m.nodeType with
    | .nativeArray => (.nativeArray,t.2)
    | .nativeObject => (.nativeObject,t.2)
    | .class => (.class,m.nodeCe)
    | .none => t

def SegmentMatches (segment key : CString) : Prop := segment = CString.lit "$" ∨ segment = key

instance (segment key : CString) : Decidable (SegmentMatches segment key) := by
  unfold SegmentMatches; infer_instance

/-- A registered path matches a chain of keys of the same length, segment by segment. -/
def PathMatches (segments path : List CString) : Prop := List.Forall₂ SegmentMatches segments path

instance (segments path : List CString) : Decidable (PathMatches segments path) := by
  unfold PathMatches; infer_instance

theorem elementsMatch_drop (segments path : List CString) (es cs : List (Option CString))
    (i n : ℕ) (hes : (es.drop i).take n = segments.map some)
    (hcs : (cs.drop i).take n = path.map some) (hs : segments.length = n)
    (hp : path.length = n) :
    elementsMatch es cs i n = true ↔ PathMatches segments path := by
  induction n generalizing i segments path with
  | zero =>
    have hs' := List.length_eq_zero_iff.mp hs
    have hp' := List.length_eq_zero_iff.mp hp
    subst hs' hp'
    simp [elementsMatch,PathMatches]
  | succ n ih =>
    obtain ⟨segment,segments,rfl⟩ := List.exists_cons_of_length_eq_add_one hs
    obtain ⟨key,path,rfl⟩ := List.exists_cons_of_length_eq_add_one hp
    have head : ∀ (xs : List (Option CString)) (x : CString) (t : List CString),
        (xs.drop i).take (n+1) = (x::t).map some →
          xs[i]? = some (some x) ∧ (xs.drop (i+1)).take n = t.map some := by
      intro xs x t h
      cases hx : xs.drop i with
      | nil => simp [hx] at h
      | cons y ys =>
        have hy : xs[i]? = some y := by
          rw [← List.head?_drop,hx]; rfl
        have hd : xs.drop (i+1) = ys := by rw [← List.tail_drop,hx]; rfl
        simp only [hx,List.take_succ_cons,List.map_cons,List.cons.injEq] at h
        rw [hy,hd]
        exact ⟨congrArg some h.1,h.2⟩
    obtain ⟨he,hes'⟩ := head es segment segments hes
    obtain ⟨hc,hcs'⟩ := head cs key path hcs
    have ih' := ih segments path (i+1) hes' hcs' (by simpa using hs) (by simpa using hp)
    have hm : PathMatches (segment::segments) (key::path) ↔
        SegmentMatches segment key ∧ PathMatches segments path := List.forall₂_cons
    rw [elementsMatch,he,hc,hm]
    by_cases hd : segment = CString.lit "$"
    · simp [hd,SegmentMatches,ih']
    · by_cases hk : segment = key
      · simp [hk,SegmentMatches,ih']
      · simp [hd,hk,SegmentMatches]

/-- On a stack that holds `path`, the code's comparison is the matching of paths. -/
theorem mapElementMatchesFieldPath_iff (m : FieldPathMapElement) {current : FieldPath}
    {path : List CString} (h : current.Holds path) :
    mapElementMatchesFieldPath m current = true ↔ PathMatches m.entry.opened path := by
  have hm := m.entry_holds
  unfold mapElementMatchesFieldPath
  by_cases hs : m.entry.size = current.size
  · simp only [hs,ne_eq,not_true_eq_false,if_false]
    refine elementsMatch_drop _ _ _ _ 0 _ ?_ ?_ ?_ h.size_eq.symm
    · rw [← hs]; simpa using hm.take_size
    · simpa using h.take_size
    · rw [← hs]; exact hm.size_eq.symm
  · simp only [hs,ne_eq,not_false_eq_true,if_true]
    refine ⟨by simp,fun hp => absurd ?_ hs⟩
    rw [hm.size_eq,h.size_eq]
    exact hp.length_eq

def Typemap.entryAt (map : Typemap) (path : List CString) : Option FieldPathMapElement :=
  map.fieldPaths.find? fun m => PathMatches m.entry.opened path

theorem mapFindFieldPathEntry_eq (map : Typemap) {current : FieldPath} {path : List CString}
    (h : current.Holds path) :
    mapFindFieldPathEntry map.fieldPaths current = map.entryAt path := by
  unfold mapFindFieldPathEntry Typemap.entryAt
  congr 1
  funext m
  rw [Bool.eq_iff_iff,mapElementMatchesFieldPath_iff m h,decide_eq_true_iff]

end Phongo
