import Mathlib.Tactic.Common
import Phongo.Value.Serialized

/-! Copies of Javascript code. Its code and its scope come back where nothing on the way ends the
code at a NUL, and where what is decoded from the scope is encoded as the scope again. -/
namespace Phongo
open OrderedTable
namespace Javascript

/-- The same code, and no scope or one that is equal up to int width. -/
structure Same (js js' : Javascript) : Prop where
  code : js'.code = js.code
  scope : js'.scope.map narrowAll = js.scope.map narrowAll

/-- The part of others on each way: classes of the application restore the documents that name
them, or give them back where the properties are encoded again. `depth` goes to the innermost
scope. -/
def Cooperates (V : ValueOutside) (depth : ℕ) (scope : Doc) : CopyPath → Prop
  | .clone => True
  | .serialize => RootClassesRestore V false depth scope
  | .magicSerialize | .setState => RootClassesComeBack V.libbson V.userland false scope

/-- What each way to a copy asks of a scope that can be decoded. -/
def ScopeTravels (V : ValueOutside) (scope : Doc) : CopyPath → Prop
  | .clone => True
  | .serialize => RootLasts V false scope
  | .magicSerialize | .setState => RootComesBack V.libbson V.userland false scope

/-- What each way asks: `clone` a scope, and the others one that travels where there is one. -/
def ScopeFits (V : ValueOutside) (js : Javascript) : CopyPath → Prop
  | .clone => js.scope.isSome
  | path => ∀ scope, js.scope = some scope →
    acceptsAll V.libbson scope = true ∧ ScopeTravels V scope path

section
variable {L : Libbson} {U : Userland} {F : SerialFormat} {tables : BsonObject → Option Props}

theorem not_copied_init_of_nul {z : Zval} {code : Bytes} (ha : scopeAccepted (some z) = true)
    (hcode : (0 : UInt8) ∈ code) (P : Javascript → Prop) :
    ¬ ValueClass.Copied P (some (init L U none code (some z) [])) :=
  ValueClass.not_copied_of_exceptions (exceptions_init_of_nul ha hcode)

/-- Code that is initialised with its own bytes and a scope `d`. -/
theorem copied_init_iff {js : Javascript} {z : Zval} {d : Option Doc}
    (ha : scopeAccepted (some z) = true) (hd : scopeDocument L U (some z) [] = (d,[])) :
    ValueClass.Copied (Same js) (some (init L U none js.code (some z) [])) ↔
      (0 : UInt8) ∉ js.code ∧ d.map narrowAll = js.scope.map narrowAll := by
  by_cases hcode : (0 : UInt8) ∈ js.code
  · exact iff_of_false (not_copied_init_of_nul ha hcode _) fun hs => hs.1 hcode
  · rw [init_accepted ha hd hcode,ValueClass.copied_some]
    exact ⟨fun hs => ⟨hcode,hs.scope⟩,fun hs => ⟨rfl,hs.2⟩⟩

/-- What the properties are initialised to: the code up to its first NUL. -/
theorem copied_getProperties_iff {js : Javascript} {z : Zval} {d : Option Doc}
    (hz : exportScope L U js.scope [] = (some z,[])) (ha : scopeAccepted (some z) = true)
    (hd : scopeDocument L U (some z) [] = (d,[])) :
    ValueClass.Copied (Same js) (ValueClass.whenExported (getProperties L U js) fun props =>
      some (initFromHash L U none props [])) ↔
    (0 : UInt8) ∉ js.code ∧ d.map narrowAll = js.scope.map narrowAll := by
  have hprops : getProperties L U js [] =
      (some [property "code" (.string (cstr js.code)),property "scope" z],[]) :=
    Attempt.bind_of_some hz
  have hinit : initFromHash L U none
      [property "code" (.string (cstr js.code)),property "scope" z] [] =
        ⟨true,some ⟨cstr js.code,d⟩,[]⟩ :=
    init_accepted ha hd (zero_notMem_cstr js.code)
  rw [ValueClass.whenExported_of_eq hprops,hinit,ValueClass.copied_some,← cstr_eq_self_iff]
  exact ⟨fun hs => ⟨hs.code,hs.scope⟩,fun hs => ⟨hs.1,hs.2⟩⟩

theorem copied_clone_iff {js : Javascript} :
    ValueClass.Copied (Same js) ((valueClass L U).copy F tables js .clone) ↔
      (0 : UInt8) ∉ js.code ∧ js.scope.isSome := by
  rcases js with ⟨code,_ | scope⟩
  · refine iff_of_false ?_ fun h => by cases h.2
    rintro ⟨copy,hcopy,-⟩
    cases hcopy
  · by_cases hcode : (0 : UInt8) ∈ code
    · refine iff_of_false ?_ fun h => h.1 hcode
      apply ValueClass.not_copied_of_exceptions
      simp [init,scopeAccepted,hcode,throwException]
    · have hcopy : (valueClass L U).copy F tables ⟨code,some scope⟩ .clone =
          some ⟨true,some ⟨code,some scope⟩,[]⟩ := by
        simp [ValueClass.copy,valueClass,cloneObject,init,scopeAccepted,scopeDocument,hcode]
      rw [hcopy,ValueClass.copied_some]
      exact iff_of_true ⟨rfl,rfl⟩ ⟨hcode,rfl⟩

theorem not_copied_of_rejected {js : Javascript} {scope : Doc} (hscope : js.scope = some scope)
    (ha : acceptsAll L scope = false) {path : CopyPath} (hpath : path ≠ .clone) :
    ¬ ValueClass.Copied (Same js) ((valueClass L U).copy F tables js path) := by
  have hok : (bsonToZvalEx L U (.read scope true) BsonState.init []).ok = false :=
    (bsonToZvalRoot_rejects (U:=U) ha true BsonState.init []).1
  have hnone : (exportScope L U js.scope []).1 = none := by
    simp [exportScope,hscope,hok]
  have hexports : ∀ f : Zval → Attempt Exception Props,
      (Bind.bind (exportScope L U js.scope) f : Attempt Exception Props) [] =
        (none,(exportScope L U js.scope []).2) := fun f =>
    Attempt.bind_of_none (Prod.ext hnone rfl)
  rintro ⟨copy,hcopy,-⟩
  cases path with
  | clone => exact hpath rfl
  | serialize =>
    simp only [ValueClass.copy,valueClass,serialized,ValueClass.whenExported,hexports] at hcopy
    cases hcopy
  | magicSerialize =>
    simp only [ValueClass.copy,valueClass,getProperties,ValueClass.whenExported,hexports] at hcopy
    cases hcopy
  | setState =>
    simp only [ValueClass.copy,valueClass,getProperties,ValueClass.whenExported,hexports] at hcopy
    cases hcopy

theorem copied_noScope_iff {js : Javascript} (hscope : js.scope = none) {path : CopyPath}
    (hpath : path ≠ .clone) :
    ValueClass.Copied (Same js) ((valueClass L U).copy F tables js path) ↔
      (0 : UInt8) ∉ js.code := by
  have hz : exportScope L U js.scope [] = (some .null,[]) := by rw [hscope]; rfl
  have hsame : (none : Option Doc).map narrowAll = js.scope.map narrowAll := by rw [hscope]
  have hproperties := copied_getProperties_iff hz rfl rfl
  have hserialize : ValueClass.Copied (Same js) ((valueClass L U).copy F tables js .serialize) ↔
      (0 : UInt8) ∉ js.code ∧ (none : Option Doc).map narrowAll = js.scope.map narrowAll := by
    rw [copy_serialize hz trivial]
    exact copied_init_iff rfl rfl
  simp only [hsame,and_true] at hproperties hserialize
  cases path with
  | clone => exact absurd rfl hpath
  | serialize => exact hserialize
  | magicSerialize => exact hproperties
  | setState => exact hproperties

theorem copied_properties_iff (hL : L.Lawful) {js : Javascript} {scope : Doc}
    (hscope : js.scope = some scope) (ha : acceptsAll L scope = true)
    (hc : RootClassesComeBack L U false scope) :
    ValueClass.Copied (Same js) (ValueClass.whenExported (getProperties L U js) fun props =>
      some (initFromHash L U none props [])) ↔
    (0 : UInt8) ∉ js.code ∧ RootComesBack L U false scope := by
  obtain ⟨z,ws,hdecodes,hws,-,hiff⟩ := returned_root hL hc ha
  have hobject : z.isArrayOrObject = true := isArrayOrObject_of_decodes ha hdecodes
  have hz : exportScope L U js.scope [] = (some z,[]) := by
    rw [hscope]
    exact exportScope_of_decodes hdecodes
  have hnarrow : narrowAll ws = narrowAll scope ↔ RootComesBack L U false scope := hiff
  rw [copied_getProperties_iff hz (scopeAccepted_of_isArrayOrObject hobject)
    (scopeDocument_of_isArrayOrObject hobject hws),hscope,Option.map_some,Option.map_some,
    Option.some.injEq,hnarrow]

end

section
variable {V : ValueOutside} {depth : ℕ} {js : Javascript}

theorem copied_serialize_iff (hV : V.Lawful) {scope : Doc} (hscope : js.scope = some scope)
    (ha : acceptsAll V.libbson scope = true) (hc : RootClassesRestore V false depth scope) :
    ValueClass.Copied (Same js)
      ((valueClass V.libbson V.userland).copy (V.format depth) V.tables js .serialize) ↔
    (0 : UInt8) ∉ js.code ∧ RootLasts V false scope := by
  obtain ⟨z,hdecodes,hstored⟩ := hc.stored hV ha
  have hz : exportScope V.libbson V.userland js.scope [] = (some z,[]) := by
    rw [hscope]
    exact exportScope_of_decodes hdecodes
  rw [copy_serialize hz hstored.regular]
  cases hback : comesBack (V.format depth) z with
  | none =>
    refine iff_of_false (ValueClass.not_copied_of_exceptions (List.cons_ne_nil _ _)) fun h => ?_
    exact hstored.lost hback h.2
  | some z' =>
    obtain ⟨ws,hobject,hws,-,-,-,hiff⟩ := hstored.revived z' hback
    have hnarrow : narrowAll ws = narrowAll scope ↔ RootLasts V false scope := hiff
    show ValueClass.Copied (Same js)
      (some (init V.libbson V.userland none js.code (some z') [])) ↔ _
    rw [copied_init_iff (scopeAccepted_of_isArrayOrObject hobject)
      (scopeDocument_of_isArrayOrObject hobject hws),hscope,Option.map_some,Option.map_some,
      Option.some.injEq,hnarrow]

theorem copied_scope_iff (hV : V.Lawful) {scope : Doc} (hscope : js.scope = some scope)
    (ha : acceptsAll V.libbson scope = true) {path : CopyPath} (hpath : path ≠ .clone)
    (hc : Cooperates V depth scope path) :
    ValueClass.Copied (Same js)
      ((valueClass V.libbson V.userland).copy (V.format depth) V.tables js path) ↔
    (0 : UInt8) ∉ js.code ∧ ScopeTravels V scope path := by
  cases path with
  | clone => exact absurd rfl hpath
  | serialize => exact copied_serialize_iff hV hscope ha hc
  | magicSerialize => exact copied_properties_iff hV.libbson hscope ha hc
  | setState => exact copied_properties_iff hV.libbson hscope ha hc

/-- Javascript code survives a copy exactly if it has no NUL and, for `clone`, has a scope, or
otherwise has none or one that can be decoded and comes back on that way. -/
theorem javascript_copied_iff (V : ValueOutside) (hV : V.Lawful) (depth : ℕ) (js : Javascript)
    (path : CopyPath)
    (hc : ∀ scope, js.scope = some scope → acceptsAll V.libbson scope = true →
      Cooperates V depth scope path) :
    ValueClass.Copied (Same js)
      ((valueClass V.libbson V.userland).copy (V.format depth) V.tables js path) ↔
    (0 : UInt8) ∉ js.code ∧ ScopeFits V js path := by
  by_cases hpath : path = .clone
  · subst hpath
    exact copied_clone_iff
  · have hfits : ScopeFits V js path ↔ ∀ scope, js.scope = some scope →
        acceptsAll V.libbson scope = true ∧ ScopeTravels V scope path := by
      cases path with
      | clone => exact absurd rfl hpath
      | _ => exact Iff.rfl
    rw [hfits]
    cases hscope : js.scope with
    | none =>
      rw [copied_noScope_iff hscope hpath]
      simp
    | some scope =>
      by_cases ha : acceptsAll V.libbson scope = true
      · rw [copied_scope_iff hV hscope ha hpath (hc scope hscope ha)]
        simp [ha]
      · refine iff_of_false (not_copied_of_rejected hscope (by simpa using ha) hpath) ?_
        exact fun h => ha (h.2 scope rfl).1

end

def adaDocument : Doc := [odmField .person,(.lit "name",.utf8 (ascii "Ada"))]

theorem classRestores_ada :
    ClassRestores .plain false (ValueOutside.plain.format 1) adaDocument := by
  let name : List (Key × Zval) := [(.str (ascii "name"),.string (ascii "Ada"))]
  let ada : Zval := .object .person none name (.array none name)
  have hrestores : RestoresTo ValueOutside.plain.userland .person name (.array none name) :=
    ⟨rfl,by decide,rfl⟩
  have hfields : ∀ path, materialiseAll ValueOutside.plain.libbson ValueOutside.plain.userland
      .default path [] [(.lit "name",.utf8 (ascii "Ada"))] =
        ([(.lit "name",.string (ascii "Ada"))],[]) := fun _ => rfl
  have hz : ∀ path, materialise ValueOutside.plain.libbson ValueOutside.plain.userland .default path
      [] (.document adaDocument) = (ada,[]) := fun path =>
    (persisted_materialises hrestores rfl (hfields path) rfl).2
  have hencoding : ∀ tables, encoding ValueOutside.plain.libbson ValueOutside.plain.userland tables
      ada = some (.document adaDocument) := fun _ => rfl
  intro path
  refine ⟨ada,ada,adaDocument,hz path,?_,?_,fun key e he _ => ?_,rfl,by decide,fun path => ?_⟩
  · exact ⟨by decide,by decide,trivial,trivial⟩
  · rfl
  · exact ((append_encoding _ _).1 ada).1 key e _ he (hencoding _)
  · exact congrArg Prod.snd (hz path)

/-- A scope with a small int, which comes back with 32 bits, a UUID, an object of a class and more
code. -/
def nestedScope : Doc :=
  [(.lit "n",.int64 5),(.lit "u",.binary 4 (List.replicate 16 1)),(.lit "p",.document adaDocument),
    (.lit "f",.codeWithScope (ascii "y") [(.lit "k",.oid (Vector.replicate 12 0))])]

theorem copied_nested : ValueClass.Copied (Same ⟨ascii "x",some nestedScope⟩)
    ((valueClass ValueOutside.plain.libbson ValueOutside.plain.userland).copy
      (ValueOutside.plain.format 1) ValueOutside.plain.tables ⟨ascii "x",some nestedScope⟩
      .serialize) := by
  have hclass : ValueOutside.plain.userland.pclassOf nestedScope = none := by decide +kernel
  have hada : (ValueOutside.plain.userland.pclassOf adaDocument).isSome = true := by decide +kernel
  have hscope : ValueOutside.plain.userland.pclassOf [(.lit "k",.oid (Vector.replicate 12 0))] =
      none := by decide +kernel
  refine (javascript_copied_iff .plain ValueOutside.plain_lawful 1 _ .serialize ?_).mpr
    ⟨by decide,?_⟩
  · intro scope hjs _
    cases hjs
    refine ⟨fun h => absurd hclass (Option.isSome_iff_ne_none.mp h),fun _ => ?_⟩
    refine ⟨loads_of_ne (by decide) _,trivial,loads_of_ne (by decide) _,trivial,
      loads_of_ne (by decide) _,⟨fun _ _ => classRestores_ada,?_⟩,loads_of_ne (by decide) _,⟨?_,?_⟩,
      trivial⟩
    · rintro (h | h)
      · cases h
      · exact absurd h (Option.isSome_iff_ne_none.mp hada)
    · exact fun h => absurd hscope (Option.isSome_iff_ne_none.mp h)
    · exact fun _ => ⟨loads_of_ne (by decide) _,trivial,trivial⟩
  · intro scope hjs
    cases hjs
    refine ⟨by decide,Or.inr ⟨by decide,?_,?_,Or.inl ⟨rfl,hada⟩,
      ⟨by decide,Or.inr ⟨by decide,trivial,trivial⟩⟩,trivial⟩⟩
    · exact fun h => absurd h Bool.false_ne_true
    · exact fun h => h.2 (by decide)

/-- Cloning code without a scope hands NULL to `bson_copy`. -/
theorem not_javascript_copies :
    ¬ ∀ js, Reachable ValueOutside.plain.libbson ValueOutside.plain.userland js → ∀ path,
      ValueClass.Copied (Same js)
        ((valueClass ValueOutside.plain.libbson ValueOutside.plain.userland).copy
          (ValueOutside.plain.format 0) ValueOutside.plain.tables js path) := by
  intro h
  have hinit : init ValueOutside.plain.libbson ValueOutside.plain.userland none (ascii "x") none
      [] = ⟨true,some ⟨ascii "x",none⟩,[]⟩ := rfl
  obtain ⟨copy,hcopy,-⟩ := h _ (.init hinit) .clone
  cases hcopy

end Javascript
end Phongo
