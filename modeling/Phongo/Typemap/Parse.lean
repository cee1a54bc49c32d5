import Mathlib.Tactic.Common
import Phongo.Lib.Attempt
import Phongo.Typemap

/-! How the driver parses a typemap array. -/
namespace Phongo
open OrderedTable

/-- `convert_to_string` where it depends on more than the value: the digits of a float, the
`__toString` method of an object, the number of a resource. -/
structure StringConversion where
  ofDouble : UInt64 → Bytes
  ofObject : Zval → Bytes × List ℕ
  ofResource : Bytes

def StringConversion.plain : StringConversion := ⟨fun _ => [],fun _ => ([],[]),[]⟩

namespace Parsing
variable (U : Userland) (S : StringConversion)

abbrev Parse := Attempt Exception

/-- A call of `convert_to_string`, with what it throws. -/
def convertToString : Zval → Bytes × List ℕ
  | .string s => (s,[])
  | .bool true => (ascii "1",[])
  | .long n => (longToStr n,[])
  | .double bits => (S.ofDouble bits,[])
  | .array _ _ => (ascii "Array",[])
  | .resource => (S.ofResource,[])
  | .bson obj => S.ofObject (.bson obj)
  | .cursorId id => S.ofObject (.cursorId id)
  | .object ce ht properties returned => S.ofObject (.object ce ht properties returned)
  | .undef _ | .null | .bool false | .reference _ => ([],[])

/-- `php_array_zval_to_string` on a value that exists. -/
def zvalToString : Zval → Bytes × List ℕ
  | .null => ([],[])
  | .reference z => zvalToString z
  | z => convertToString S z

/-- `php_array_fetch_string`; NULL for a missing value is as empty as any string of length 0. -/
def fetchString (options : List (Key × Zval)) (name : CString) : Parse Bytes := fun eg =>
  match find? options (symtable name.bytes) with
  | none => (some [],eg)
  | some z => (some (zvalToString S z).1,thrownBy (zvalToString S z).2 ++ eg)

/-- `php_phongo_bson_state_fetch_class` for `php_phongo_unserializable_ce` -/
def fetchClass (classname : Bytes) : Parse ClassEntry :=
  match U.lookupClass classname with
  | .error thrown => fun eg =>
    Attempt.throw (invalidArgument "Class %s does not exist" [.bytes (cstr classname)])
      (thrownBy thrown ++ eg)
  | .ok found =>
    if ¬ found.instantiatable then
      .throw (invalidArgument "Class %s is not instantiatable" [.bytes (cstr classname)])
    else if ¬ found.isUnserializable then
      .throw (invalidArgument "Class %s does not implement %s"
        [.bytes (cstr classname),.bytes (ascii "MongoDB\\BSON\\Unserializable")])
    else pure found

/-- `php_phongo_bson_state_parse_type`; `type` is what its two output arguments hold before. -/
def parseType (options : List (Key × Zval)) (name : CString)
    (type : TypemapType × Option ClassEntry) : Parse (TypemapType × Option ClassEntry) := do
  let classname ← fetchString S options name
  if classname = [] then return type
  else if (CString.ofBytes classname).eqCase "array" then return (.nativeArray,none)
  else if (CString.ofBytes classname).eqCase "stdclass" ||
      (CString.ofBytes classname).eqCase "object" then return (.nativeObject,none)
  else
    let ce ← fetchClass U classname
    return (.class,some ce)

end Parsing

/-- `strchr`: what stands before and after the first `c`. -/
def strchr (c : UInt8) : Bytes → Option (Bytes × Bytes)
  | [] => none
  | b::bs => if b = c then some ([],bs) else (strchr c bs).map fun r => (b::r.1,r.2)

theorem strchr_eq_none {c : UInt8} {s : Bytes} (h : strchr c s = none) : c ∉ s := by
  induction s with
  | nil => exact List.not_mem_nil
  | cons b s ih =>
    by_cases hb : b = c
    · simp [strchr,hb] at h
    · have hs : strchr c s = none := by simpa [strchr,hb] using h
      simpa [Ne.symm hb] using ih hs

theorem strchr_eq_some {c : UInt8} {s before after : Bytes} (h : strchr c s = some (before,after)) :
    s = before ++ c::after ∧ c ∉ before := by
  induction s generalizing before with
  | nil => simp [strchr] at h
  | cons b s ih =>
    by_cases hb : b = c
    · simp only [strchr,hb,if_true,Option.some.injEq,Prod.mk.injEq] at h
      obtain ⟨rfl,rfl⟩ := h
      simp [hb]
    · simp only [strchr,hb,if_false,Option.map_eq_some_iff,Prod.mk.injEq] at h
      obtain ⟨⟨before',after'⟩,hs,rfl,rfl⟩ := h
      obtain ⟨rfl,hc⟩ := ih hs
      exact ⟨rfl,by simp [Ne.symm hb,hc]⟩

theorem length_strchr {c : UInt8} {s : Bytes} {r : Bytes × Bytes} (h : strchr c s = some r) :
    r.2.length < s.length := by
  obtain ⟨before,after⟩ := r
  obtain ⟨rfl,-⟩ := strchr_eq_some h
  simp only [List.length_append,List.length_cons]
  omega

/-- A field path that owns its elements, built by pushing them. -/
abbrev OwnedPath := {fp : FieldPath // fp.Holds fp.opened}

namespace OwnedPath

/-- `php_phongo_field_path_alloc(true)` -/
def alloc : OwnedPath := ⟨.alloc,FieldPath.alloc_holds⟩

def push (entry : OwnedPath) (element : CString) : OwnedPath :=
  ⟨entry.1.push element .none,by
    have h := entry.2.push element .none
    rwa [h.opened]⟩

theorem opened_push (entry : OwnedPath) (element : CString) :
    (entry.push element).1.opened = entry.1.opened ++ [element] :=
  (entry.2.push element .none).opened

end OwnedPath

/-- `map->field_paths`: `map` has a slot for each element there is room for. -/
structure FieldPathMap where
  map : List (Option FieldPathMapElement)
  allocatedSize : ℕ
  size : ℕ

namespace FieldPathMap

def zeroed : FieldPathMap := ⟨[],0,0⟩

/-- `erealloc` to `n` slots. -/
def realloc (xs : List (Option FieldPathMapElement)) (n : ℕ) : List (Option FieldPathMapElement) :=
  xs.take n ++ List.replicate (n - xs.length) none

def ensureAllocation (m : FieldPathMap) : FieldPathMap :=
  if m.allocatedSize < m.size+1 then
    let n := m.allocatedSize + fieldPathExpansion
    { m with allocatedSize := n, map := realloc m.map n }
  else m

/-- `map_add_field_path_element` -/
def addElement (m : FieldPathMap) (element : FieldPathMapElement) : FieldPathMap :=
  let m := m.ensureAllocation
  { m with map := m.map.set m.size (some element), size := m.size + 1 }

def entries (m : FieldPathMap) : List FieldPathMapElement := (m.map.take m.size).filterMap id

end FieldPathMap

/-- `php_phongo_bson_typemap` while it is being filled. -/
structure TypemapState where
  document : TypemapType × Option ClassEntry
  array : TypemapType × Option ClassEntry
  root : TypemapType × Option ClassEntry
  fieldPaths : FieldPathMap

namespace TypemapState

/-- `PHONGO_BSON_INIT_STATE` -/
def zeroed : TypemapState := ⟨(.none,none),(.none,none),(.none,none),.zeroed⟩

def typemap (state : TypemapState) : Typemap where
  documentType := state.document.1
  document := state.document.2
  arrayType := state.array.1
  array := state.array.2
  rootType := state.root.1
  root := state.root.2
  fieldPaths := state.fieldPaths.entries

end TypemapState

namespace Parsing
variable (U : Userland) (S : StringConversion)

/-- The `while` loop over the segments and the push after it; nothing for an empty segment. -/
def splitSegments (entry : OwnedPath) (ptr : Bytes) : Option OwnedPath :=
  match _h : strchr 46 ptr with
  | none => some (entry.push (CString.ofBytes ptr))
  | some (segment,rest) =>
    if segment = [] then none
    else splitSegments (entry.push (CString.ofBytes segment)) rest
termination_by ptr.length
decreasing_by exact length_strchr _h

/-- `php_phongo_bson_state_add_field_path` -/
def addFieldPath (map : FieldPathMap) (fieldPathOriginal : CString)
    (type : TypemapType × Option ClassEntry) : Parse FieldPathMap :=
  if fieldPathOriginal.bytes.head? = some 46 then
    .throw (invalidArgument "A 'fieldPaths' key may not start with a '.'" [])
  else if fieldPathOriginal.bytes.getLast? = some 46 then
    .throw (invalidArgument "A 'fieldPaths' key may not end with a '.'" [])
  else
    match splitSegments .alloc fieldPathOriginal.bytes with
    | none => .throw (invalidArgument "A 'fieldPaths' key may not have an empty segment" [])
    | some entry => pure (map.addElement ⟨entry.1,type.1,type.2,entry.2⟩)

/-- The loop over the keys of `fieldPaths`, from index `i` on. The local that the type of a key
is parsed into starts as `junk i`, its class as NULL. -/
def parseKeys (junk : ℕ → TypemapType) (fieldpaths : List (Key × Zval)) :
    ℕ → List (Key × Zval) → FieldPathMap → Parse FieldPathMap
  | _, [], map => pure map
  | _, (.int _,_)::_, _ =>
    .throw (invalidArgument "The 'fieldPaths' element is not an associative array" [])
  | i, (.str key,_)::rest, map =>
    let name := CString.ofBytes key
    if name.bytes = [] then
      .throw (invalidArgument "The 'fieldPaths' element may not be an empty string" [])
    else do
      let type ← parseType U S fieldpaths name (junk i,none)
      let map ← addFieldPath map name type
      parseKeys junk fieldpaths (i+1) rest map

/-- `php_phongo_bson_state_parse_fieldpaths` -/
def parseFieldpaths (junk : ℕ → TypemapType) (typemap : List (Key × Zval)) (map : FieldPathMap) :
    Parse FieldPathMap :=
  match find? typemap (.str (ascii "fieldPaths")) with
  | none => pure map
  | some (.array _ fieldpaths) => parseKeys U S junk fieldpaths 0 fieldpaths map
  | some _ => .throw (invalidArgument "The 'fieldPaths' element is not an array" [])

/-- `php_phongo_bson_typemap_to_state`; no array leaves the state as it is. -/
def typemapToState (junk : ℕ → TypemapType) (typemap : Option (List (Key × Zval)))
    (state : TypemapState) : Parse TypemapState :=
  match typemap with
  | none => pure state
  | some typemap => do
    let array ← parseType U S typemap (CString.lit "array") state.array
    let document ← parseType U S typemap (CString.lit "document") state.document
    let root ← parseType U S typemap (CString.lit "root") state.root
    let fieldPaths ← parseFieldpaths U S junk typemap state.fieldPaths
    return ⟨document,array,root,fieldPaths⟩

end Parsing
end Phongo
