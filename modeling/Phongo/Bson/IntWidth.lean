import Mathlib.Tactic.Common
import Phongo.Bson.Reencoding

/-! Documents that come back, exactly or up to the width of their ints. A PHP int is encoded with
32 bits where it fits, whatever width it was decoded from. -/
namespace Phongo
open OrderedTable

mutual

/-- A value with its ints as PHP's are encoded, also in the scopes of code. -/
def narrow : BsonValue → BsonValue
  | .document d => .document (narrowAll d)
  | .array d => .array (narrowAll d)
  | .codeWithScope c scope => .codeWithScope c (narrowAll scope)
  | .int64 n => intValue n
  | v => v

def narrowAll : List (CString × BsonValue) → List (CString × BsonValue)
  | [] => []
  | (key,v)::rest => (key,narrow v)::narrowAll rest

end

def upTo (exact : Bool) (v : BsonValue) : BsonValue := if exact then v else narrow v

def upToAll (exact : Bool) (d : Doc) : Doc := if exact then d else narrowAll d

section Narrow

@[simp] theorem keys_narrowAll (d : Doc) : keys (narrowAll d) = keys d := by
  induction d with
  | nil => rfl
  | cons f d ih => simp [narrowAll,ih]

theorem narrow_intValue (n : Int64) : narrow (intValue n) = intValue n := by
  unfold intValue
  split
  · rename_i h
    simp [narrow,intValue,h]
  · rfl

theorem narrowAll_numbered (n : ℕ) (ws : Doc) :
    narrowAll (numbered n ws) = numbered n (narrowAll ws) := by
  induction ws generalizing n with
  | nil => rfl
  | cons f ws ih => simp only [numbered,narrowAll,ih]

variable {exact : Bool}

@[simp] theorem upTo_document (d : Doc) : upTo exact (.document d) = .document (upToAll exact d) := by
  cases exact <;> rfl

@[simp] theorem upTo_array (d : Doc) : upTo exact (.array d) = .array (upToAll exact d) := by
  cases exact <;> rfl

@[simp] theorem upTo_codeWithScope (c : Bytes) (scope : Doc) :
    upTo exact (.codeWithScope c scope) = .codeWithScope c (upToAll exact scope) := by
  cases exact <;> rfl

@[simp] theorem upToAll_cons (key : CString) (v : BsonValue) (d : Doc) :
    upToAll exact ((key,v)::d) = (key,upTo exact v)::upToAll exact d := by
  cases exact <;> rfl

@[simp] theorem keys_upToAll (d : Doc) : keys (upToAll exact d) = keys d := by
  cases exact with
  | false => exact keys_narrowAll d
  | true => rfl

theorem upToAll_numbered (n : ℕ) (d : Doc) :
    upToAll exact (numbered n d) = numbered n (upToAll exact d) := by
  cases exact with
  | false => exact narrowAll_numbered n d
  | true => rfl

theorem keys_of_upToAll_eq {d w : Doc} (h : upToAll exact w = upToAll exact d) :
    keys w = keys d :=
  (keys_upToAll w).symm.trans ((congrArg keys h).trans (keys_upToAll d))

end Narrow

section ComesBack
variable (L : Libbson) (U : Userland) (exact : Bool)

mutual

/-- What encoding gives back: no key twice, the elements of an array counted up, no NUL where
libbson takes a `char*`, no other flags than libbson stores and, exactly, no 64-bit integer that
fits 32 bits. A document of a class is up to that class. -/
def ComesBack : BsonValue → Prop
  | .document d => (U.pclassOf d).isSome ∨ (keys d).Nodup ∧ ComesBackAll d
  | .array d => Numbered 0 (keys d) ∧ ComesBackAll d
  | .code c | .codeWithScope c _ => (0 : UInt8) ∉ c
  | .dbPointer ns _ => (0 : UInt8) ∉ ns
  | .regex _ options => L.regexOptions options = options
  | .int64 n => exact = true → n > 2147483647 ∨ n < -2147483648
  | _ => True

def ComesBackAll : List (CString × BsonValue) → Prop
  | [] => True
  | (_,v)::rest => ComesBack v ∧ ComesBackAll rest

end

/-- The class that an embedded document names gives it back. -/
def GivesBack (d : Doc) : Prop :=
  ∀ path, ∃ z w, materialise L U .default path [] (.document d) = (z,[]) ∧
    Writes L U z (.document w) ∧ upToAll exact w = upToAll exact d

mutual

/-- Classes of the application give back the documents that name them, their autoloader throws
nothing, and neither does what is decoded as the scope of code. -/
def ClassesComeBack : BsonValue → Prop
  | .document d => ((U.pclassOf d).isSome → GivesBack L U exact d) ∧
      (U.pclassOf d = none → ClassesComeBackAll d)
  | .array d => ClassesComeBackAll d
  | .codeWithScope _ scope => (materialiseRoot L U .default [] scope).2 = []
  | _ => True

def ClassesComeBackAll : List (CString × BsonValue) → Prop
  | [] => True
  | (key,v)::rest =>
    (∀ eg, U.autoloadField key v eg = eg) ∧ ClassesComeBack v ∧ ClassesComeBackAll rest

end

/-- The same where the document is a root. -/
def RootComesBack (d : Doc) : Prop :=
  (U.pclassOf d).isSome ∨ (keys d).Nodup ∧ ComesBackAll L U exact d

structure RootClassesComeBack (d : Doc) : Prop where
  named : (U.pclassOf d).isSome → ∃ z w, Decodes L U .default d z ∧
    zvalToDoc L U z [] = (some w,[]) ∧ upToAll exact w = upToAll exact d
  unnamed : U.pclassOf d = none → ClassesComeBackAll L U exact d

/-- What a decoded value is encoded as, and whether that is the value. -/
structure CameBack (v : BsonValue) (z : Zval) (w : BsonValue) : Prop where
  writes : Writes L U z w
  eq_iff : upTo exact w = upTo exact v ↔ ComesBack L U exact v

structure CameBackAll (d : Doc) (zs : List (CString × Zval)) (ws : Doc) : Prop where
  written : WrittenAs L U zs ws
  keys : keys ws = keys d
  eq_iff : upToAll exact ws = upToAll exact d ↔ ComesBackAll L U exact d

end ComesBack

section Decoding
variable {L : Libbson} {U : Userland} {exact : Bool}

theorem returned_leaf (hL : L.Lawful) {v : BsonValue} (hv : v.IsLeaf) (ht : L.textValid v = true)
    (ha : accepts L v = true) :
    CameBack L U exact v (leafValue L v) (toBson L (leafValue L v)) := by
  have hiff := toBson_leafValue hL false hv ha
  refine ⟨writes_leaf hL hv ht ha,?_⟩
  cases exact with
  | true =>
    refine hiff.trans ?_
    cases v with
    | document | array | codeWithScope => exact hv.elim
    | int64 n => exact ⟨fun h _ => h,fun h => h rfl⟩
    | _ => exact Iff.rfl
  | false =>
    cases v with
    | document | array | codeWithScope => exact hv.elim
    | unsupported | corrupt => simp [accepts] at ha
    | int32 n => exact iff_of_true (congrArg narrow (intValue_toInt64 n)) trivial
    | int64 n => exact iff_of_true (narrow_intValue n) fun h => absurd h Bool.false_ne_true
    | _ => exact hiff

theorem returned_document {d : Doc} {zs : List (CString × Zval)} {ws : Doc}
    (h : CameBackAll L U exact d zs ws) : ∃ ws', WrittenAs L U (updateAll [] zs) ws' ∧
      (upToAll exact ws' = upToAll exact d ↔ (keys d).Nodup ∧ ComesBackAll L U exact d) := by
  obtain ⟨ws',hws,hnodup,hself⟩ := h.written.replaced
  rw [h.keys] at hself
  refine ⟨ws',hws,?_⟩
  constructor
  · intro he
    have hn : (keys d).Nodup := keys_of_upToAll_eq he ▸ hnodup
    rw [(hself hn).2] at he
    exact ⟨hn,h.eq_iff.mp he⟩
  · rintro ⟨hn,hback⟩
    rw [(hself hn).2]
    exact h.eq_iff.mpr hback

theorem returned_array {d : Doc} {zs : List (CString × Zval)} {ws : Doc}
    (h : CameBackAll L U exact d zs ws) :
    CameBack L U exact (.array d) (ofFields true zs) (.array (numbered 0 ws)) := by
  constructor
  · have hw := writes_array (h.written.indexedFrom 0)
    rw [keysAreIndices_indexedFrom,if_pos rfl] at hw
    rw [ofFields_true]
    exact hw
  · have hkeys : keys (upToAll exact ws) = keys (upToAll exact d) := by
      rw [keys_upToAll,keys_upToAll,h.keys]
    rw [upTo_array,upTo_array,BsonValue.array.injEq,upToAll_numbered,numbered_eq_iff hkeys,h.eq_iff,
      keys_upToAll]
    rfl

/-- Decoding throws nothing, and what is encoded again is the same exactly where it comes back. -/
theorem returned_spec (hL : L.Lawful) (exact : Bool) :
    (∀ v, ClassesComeBack L U exact v → L.textValid v = true → accepts L v = true → ∀ path,
      ∃ z w, materialise L U .default path [] v = (z,[]) ∧ CameBack L U exact v z w) ∧
    (∀ d, ClassesComeBackAll L U exact d → acceptsAll L d = true → ∀ path,
      ∃ zs ws, materialiseAll L U .default path [] d = (zs,[]) ∧
        CameBackAll L U exact d zs ws) := by
  refine BsonValue.induction ?leaf ?document ?array ?scope ?nil ?cons
  case leaf =>
    intro v hv _ ht ha path
    exact ⟨_,_,materialise_leaf hv _,returned_leaf hL hv ht ha⟩
  case document =>
    intro d ih hc _ ha path
    cases hclass : U.pclassOf d with
    | some ce =>
      have hsome : (U.pclassOf d).isSome := by simp [hclass]
      obtain ⟨z,w,hz,hw,hsame⟩ := hc.1 hsome path
      refine ⟨z,.document w,hz,hw,iff_of_true ?_ (Or.inl hsome)⟩
      rw [upTo_document,upTo_document,hsame]
    | none =>
      obtain ⟨zs,ws,hz,hall⟩ := ih (hc.2 hclass) ha path
      obtain ⟨ws',hws,hiff⟩ := returned_document hall
      refine ⟨(ofFields false zs).convertToObject,.document ws',?_,?_,?_⟩
      · have htarget := nativeMap_documentTarget false path (U.pclassOf d)
        rw [hclass] at htarget
        rw [materialise,hz,hclass]
        exact congrArg (fun t => Target.apply U t _ _) htarget
      · rw [convertToObject_ofFields]
        exact writes_object .null (hws.fields toStr_str)
      · rw [upTo_document,upTo_document,BsonValue.document.injEq,hiff]
        simp [ComesBack,hclass]
  case array =>
    intro d ih hc _ ha path
    obtain ⟨zs,ws,hz,hall⟩ := ih hc ha path
    refine ⟨ofFields true zs,_,?_,returned_array hall⟩
    have htarget := nativeMap_arrayTarget false path
    rw [materialise,hz]
    exact congrArg (fun t => Target.apply U t _ _) htarget
  case scope =>
    intro c s _ hc ht ha path
    have hdecodes : ScopeDecodes L U (.javascript c (some s)) :=
      (bsonToZvalEx_fresh (U:=U) ha Typemap.default []).2.2.trans hc
    have hw : Writes L U (.bson (.javascript c (some s))) (.codeWithScope (cstr c) s) :=
      writes_data (z:=.bson (.javascript c (some s))) hdecodes
    refine ⟨_,_,congrArg (Prod.mk _) hc,hw,?_⟩
    rw [upTo_codeWithScope,upTo_codeWithScope,BsonValue.codeWithScope.injEq]
    simp only [and_true,ComesBack,cstr_eq_self_iff]
  case nil =>
    intro _ _ path
    exact ⟨[],[],rfl,.nil,rfl,iff_of_true rfl trivial⟩
  case cons =>
    intro key v rest ihv ihd hc ha path
    simp only [acceptsAll,Bool.and_eq_true] at ha
    obtain ⟨hloads,hcv,hcd⟩ := hc
    obtain ⟨z,w,hz,hw⟩ := ihv hcv ha.1.1.2 ha.1.2 (path ++ [key])
    obtain ⟨zs,ws,hzs,hws⟩ := ihd hcd ha.2 path
    refine ⟨(key,z)::zs,(key,w)::ws,?_,.cons ⟨rfl,hw.writes⟩ hws.written,?_,?_⟩
    · simp only [materialiseAll,hz,hloads,hzs]
    · simp [hws.keys]
    · rw [upToAll_cons,upToAll_cons,List.cons.injEq,Prod.mk.injEq,hw.eq_iff,hws.eq_iff]
      simp [ComesBackAll]

theorem eq_nil_of_keys {α β : Type} {t : List (CString × α)} {u : List (CString × β)}
    (h : keys t = keys u) : t = [] ↔ u = [] := by
  unfold keys at h
  rw [← List.map_eq_nil_iff (f:=Prod.fst) (l:=t),h,List.map_eq_nil_iff]

/-- A root is encoded again, and comes back exactly where it does. -/
theorem returned_root (hL : L.Lawful) {d : Doc} (hc : RootClassesComeBack L U exact d)
    (ha : acceptsAll L d = true) : ∃ z ws, Decodes L U .default d z ∧
      zvalToDoc L U z [] = (some ws,[]) ∧ (ws = [] ↔ d = []) ∧
      (upToAll exact ws = upToAll exact d ↔ RootComesBack L U exact d) := by
  cases hclass : U.pclassOf d with
  | some ce =>
    have hsome : (U.pclassOf d).isSome := by simp [hclass]
    obtain ⟨z,w,hz,hw,hsame⟩ := hc.named hsome
    exact ⟨z,w,hz,hw,eq_nil_of_keys (keys_of_upToAll_eq hsame),iff_of_true hsame (Or.inl hsome)⟩
  | none =>
    obtain ⟨zs,ws,hzs,hall⟩ := (returned_spec hL exact).2 d (hc.unnamed hclass) ha []
    obtain ⟨ws',hws,hiff⟩ := returned_document hall
    have hdecodes := decodes_object hclass ha hzs
    rw [convertToObject_ofFields] at hdecodes
    refine ⟨_,ws',hdecodes,zvalToDoc_object (hws.fields toStr_str),?_,?_⟩
    · rw [← eq_nil_of_keys hws.keys_eq,updateAll_eq_nil,
        eq_nil_of_keys (hall.written.keys_eq.trans hall.keys)]
    · rw [hiff]
      simp [RootComesBack,hclass]

/-- What is decoded under the default typemap is an object. -/
theorem isArrayOrObject_of_decodes {d : Doc} {z : Zval} (ha : acceptsAll L d = true)
    (h : Decodes L U .default d z) : z.isArrayOrObject = true := by
  have hz := h.zchild.symm.trans (bsonToZvalEx_fresh (U:=U) ha Typemap.default []).2.1
  rw [hz,materialiseRoot]
  cases U.pclassOf d with
  | none =>
    show Zval.isArrayOrObject (Zval.convertToObject (ofFields false _)) = true
    rw [convertToObject_ofFields]
    rfl
  | some ce =>
    show Zval.isArrayOrObject (U.unserialize ce _ _).1 = true
    unfold Userland.unserialize
    split <;> rfl

end Decoding
end Phongo
