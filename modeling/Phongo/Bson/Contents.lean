import Mathlib.Tactic.Common
import Phongo.Bson.RoundTrip

/-! What a typemap cannot change. Where no class is asked for, neither by the typemap nor by a
`__pclass`, typemaps choose between arrays and `stdClass` objects and nothing else: which
documents are refused, the names, their order, the numbers of list elements and the scalars are
the document's own. -/
namespace Phongo
open OrderedTable

mutual

/-- A value with every container turned into an array under string keys. -/
def Zval.contents : Zval → Zval
  | .array _ els => .array none (contentsAll els)
  | .object _ _ properties _ => .array none (contentsAll properties)
  | z => z

def contentsAll : List (Key × Zval) → List (Key × Zval)
  | [] => []
  | (key,z)::rest => (.str key.toStr,z.contents)::contentsAll rest

end

theorem contentsAll_eq (els : List (Key × Zval)) :
    contentsAll els = els.map fun e => (.str e.1.toStr,e.2.contents) := by
  induction els with
  | nil => rfl
  | cons e els ih => simp [contentsAll,ih]

structure Typemap.ClassFree (map : Typemap) : Prop where
  root : map.rootType ≠ .class
  document : map.documentType ≠ .class
  array : map.arrayType ≠ .class
  fieldPaths : ∀ e ∈ map.fieldPaths, e.nodeType ≠ .class

/-- An array or a `stdClass` object. -/
def Target.IsContainer : Target → Prop
  | .array | .object => True
  | .unserialize _ => False

theorem TypemapType.target_isContainer {type : TypemapType} (h : type ≠ .class) {unset : Target}
    (hunset : unset.IsContainer) (ce : Option ClassEntry) :
    (type.target unset ce).IsContainer := by
  cases type with
  | none => exact hunset
  | «class» => exact absurd rfl h
  | nativeArray | nativeObject => trivial

namespace Typemap.ClassFree
variable {map : Typemap}

theorem override (h : map.ClassFree) (path : List CString)
    {t : TypemapType × Option ClassEntry} (ht : t.1 ≠ .class) :
    (FieldPathMapElement.override (map.entryAt path) t).1 ≠ .class := by
  cases hm : map.entryAt path with
  | none => exact ht
  | some m =>
    have hmem : m ∈ map.fieldPaths := List.mem_of_find?_eq_some hm
    simp only [FieldPathMapElement.override]
    split
    · exact ht
    · exact h.fieldPaths m hmem

theorem documentTarget (h : map.ClassFree) (path : List CString) :
    (map.documentTarget path none).IsContainer :=
  TypemapType.target_isContainer (h.override path h.document)
    (show Target.object.IsContainer from trivial) _

theorem arrayTarget (h : map.ClassFree) (path : List CString) :
    (map.arrayTarget path).IsContainer :=
  TypemapType.target_isContainer (h.override path h.array)
    (show Target.array.IsContainer from trivial) _

theorem rootTarget (h : map.ClassFree) : (map.rootTarget none).IsContainer :=
  TypemapType.target_isContainer h.root (show Target.object.IsContainer from trivial) _

end Typemap.ClassFree

theorem Typemap.default_classFree : Typemap.default.ClassFree :=
  ⟨by decide,by decide,by decide,by simp [Typemap.default]⟩

section
variable {L : Libbson} {U : Userland}

theorem contents_convertToObject (z : Zval) : z.convertToObject.contents = z.contents := by
  cases z with
  | array ht els =>
    simp [Zval.convertToObject,Zval.contents,contentsAll_eq,Zval.toProptable,Key.toStr]
  | _ => rfl

theorem Target.IsContainer.apply {t : Target} (h : t.IsContainer) (z : Zval) (eg : Pending) :
    (t.apply U z eg).1.contents = z.contents ∧ (t.apply U z eg).2 = eg := by
  cases t with
  | array => exact ⟨rfl,rfl⟩
  | object => exact ⟨contents_convertToObject z,rfl⟩
  | unserialize ce => exact h.elim

/-- The contents of a document depend on those of its values alone. -/
theorem contents_ofFields (isArray : Bool) {zs zs' : List (CString × Zval)}
    (h : (zs.map fun e => (e.1,e.2.contents)) = zs'.map fun e => (e.1,e.2.contents)) :
    (ofFields isArray zs).contents = (ofFields isArray zs').contents := by
  cases isArray with
  | false =>
    have hinj : Function.Injective fun k : Key => k := fun _ _ hk => hk
    have hfields : ∀ ys : List (CString × Zval), (ofFields false ys).contents =
        .array none ((updateAll [] ((ys.map fun e => (e.1,e.2.contents)).map
          fun e => (symtable e.1.bytes,e.2))).map fun e => (.str e.1.toStr,e.2)) := fun ys => by
      have hmap := map_updateAll (fun k : Key => k) Zval.contents hinj []
        (ys.map fun e => (symtable e.1.bytes,e.2))
      simp only [List.map_nil,List.map_map,Function.comp_def] at hmap
      simp only [ofFields_false,Zval.contents,contentsAll_eq,List.map_map,Function.comp_def,
        ← hmap]
    rw [hfields,hfields,h]
  | true =>
    have hindexed : ∀ (n : ℕ) (ys : List Zval), contentsAll (indexedFrom n ys) =
        (indexedFrom n (ys.map Zval.contents)).map fun e => (.str e.1.toStr,e.2) := by
      intro n ys
      induction ys generalizing n with
      | nil => rfl
      | cons y ys ih => simp [indexedFrom,contentsAll,ih]
    have hsnd : (zs.map Prod.snd).map Zval.contents = (zs'.map Prod.snd).map Zval.contents := by
      have hm := congrArg (List.map Prod.snd) h
      simpa [Function.comp_def] using hm
    simp only [ofFields_true,Zval.contents,hindexed,hsnd]

/-- Below a class-free typemap a value has the contents it has under the default one. -/
theorem materialise_contents (L : Libbson) (U : Userland) {map : Typemap} (hmap : map.ClassFree) :
    (∀ v, NoPclass U v → ∀ path eg,
      (materialise L U map path eg v).1.contents = (phpValue L v).contents ∧
        (materialise L U map path eg v).2 = eg) ∧
    (∀ d, NoPclassAll U d → ∀ path eg,
      ((materialiseAll L U map path eg d).1.map fun e => (e.1,e.2.contents)) =
          (phpFields L d).map (fun e => (e.1,e.2.contents)) ∧
        (materialiseAll L U map path eg d).2 = eg) := by
  refine BsonValue.induction ?leaf ?document ?array ?scope ?nil ?cons
  case leaf =>
    intro v hv _ path eg
    rw [materialise_leaf hv,phpValue_leaf hv]
    exact ⟨rfl,rfl⟩
  case document =>
    intro d ih h path eg
    obtain ⟨hfields,heg⟩ := ih h path eg
    obtain ⟨hz,hnone⟩ := (hmap.documentTarget path).apply (U:=U)
      (ofFields false (materialiseAll L U map path eg d).1) (materialiseAll L U map path eg d).2
    rw [materialise,pclassOf_eq_none h,phpValue,contents_convertToObject]
    exact ⟨hz.trans (contents_ofFields false hfields),hnone.trans heg⟩
  case array =>
    intro d ih h path eg
    obtain ⟨hfields,heg⟩ := ih h path eg
    obtain ⟨hz,hnone⟩ := (hmap.arrayTarget path).apply (U:=U)
      (ofFields true (materialiseAll L U map path eg d).1) (materialiseAll L U map path eg d).2
    rw [materialise,phpValue]
    exact ⟨hz.trans (contents_ofFields true hfields),hnone.trans heg⟩
  case scope =>
    intro c s _ h path eg
    have hscope : NoPclass U (.codeWithScope c s) := h
    rw [materialise,(materialise_noPclass L U).2 s hscope,pclassOf_eq_none hscope]
    exact ⟨rfl,rfl⟩
  case nil => exact fun _ path eg => ⟨rfl,rfl⟩
  case cons =>
    intro key v rest ihv ihd h path eg
    obtain ⟨hz,heg⟩ := ihv h.2.1 (path ++ [key]) eg
    obtain ⟨hfields,hrest⟩ := ihd h.2.2 path (materialise L U map (path ++ [key]) eg v).2
    rw [heg] at hfields hrest
    simp only [materialiseAll,phpFields,List.map_cons,hz,heg,h.1.loads,hfields,hrest,and_self]

theorem decode_contents {map : Typemap} (hmap : map.ClassFree) {d : Doc} (h : NoPclassAll U d) :
    let decoded := bsonToZvalEx L U (.read d true) { BsonState.init with map := map } []
    decoded.ok = acceptsAll L d ∧
      (acceptsAll L d = true → decoded.exceptions = [] ∧
        decoded.state.zchild.contents = (phpValue L (.document d)).contents) := by
  cases ha : acceptsAll L d with
  | false =>
    have hr := bsonToZvalRoot_rejects (U:=U) ha true { BsonState.init with map := map } []
    exact ⟨hr.1,fun hn => absurd hn Bool.false_ne_true⟩
  | true =>
    obtain ⟨hok,hchild,heg⟩ := bsonToZvalEx_fresh (U:=U) ha map []
    obtain ⟨hfields,hnone⟩ := (materialise_contents L U hmap).2 d h [] []
    obtain ⟨hz,hquiet⟩ := hmap.rootTarget.apply (U:=U)
      (ofFields false (materialiseAll L U map [] [] d).1) (materialiseAll L U map [] [] d).2
    refine ⟨hok,fun _ => ⟨heg.trans ?_,?_⟩⟩
    · rw [materialiseRoot,pclassOf_eq_none h]
      exact hquiet.trans hnone
    · rw [hchild,materialiseRoot,pclassOf_eq_none h,phpValue,contents_convertToObject]
      exact hz.trans (contents_ofFields false hfields)

end

/-- Two typemaps without classes, whatever their types and field paths, accept the same documents
and give values that differ in their containers only. -/
theorem typemaps_keepContents (L : Libbson) (U : Userland) (map map' : Typemap)
    (hmap : map.ClassFree) (hmap' : map'.ClassFree) (d : Doc) (h : NoPclassAll U d) :
    let decoded := bsonToZvalEx L U (.read d true) { BsonState.init with map := map } []
    let decoded' := bsonToZvalEx L U (.read d true) { BsonState.init with map := map' } []
    decoded.ok = decoded'.ok ∧ (decoded.ok = true →
      decoded.exceptions = [] ∧ decoded'.exceptions = [] ∧
        decoded.state.zchild.contents = decoded'.state.zchild.contents) := by
  obtain ⟨hok,hcontents⟩ := decode_contents (L:=L) hmap h
  obtain ⟨hok',hcontents'⟩ := decode_contents (L:=L) hmap' h
  refine ⟨hok.trans hok'.symm,fun ha => ?_⟩
  obtain ⟨heg,hz⟩ := hcontents (hok.symm.trans ha)
  obtain ⟨heg',hz'⟩ := hcontents' (hok.symm.trans ha)
  exact ⟨heg,heg',hz.trans hz'.symm⟩

/-- A list in a document with two numeric names, as arrays and under the default typemap. -/
theorem typemaps_keepContents_arrays :
    let d : Doc := [(.lit "7",.array [(.lit "x",.int32 1),(.lit "x",.null)]),(.lit "a",.document [])]
    let U := Userland.keeping .person
    let decoded := bsonToZvalEx .ascii U (.read d true) { BsonState.init with map := .arrays } []
    let decoded' := bsonToZvalEx .ascii U (.read d true) { BsonState.init with map := .default } []
    decoded.ok = decoded'.ok ∧ (decoded.ok = true →
      decoded.exceptions = [] ∧ decoded'.exceptions = [] ∧
        decoded.state.zchild.contents = decoded'.state.zchild.contents) :=
  typemaps_keepContents .ascii (.keeping .person) .arrays .default
    ⟨by decide,by decide,by decide,by simp [Typemap.arrays]⟩ Typemap.default_classFree _
    ⟨ignores_of_ne (by decide) _,
      ⟨ignores_of_ne (by decide) _,trivial,ignores_of_ne (by decide) _,trivial,trivial⟩,
      ignores_of_ne (by decide) _,trivial,trivial⟩

end Phongo
