import Mathlib.Tactic.Common
import Phongo.Bson.Data

/-! Trees of PHP arrays survive encoding and decoding when every typemap type is `array`. -/
namespace Phongo
open OrderedTable

mutual

/-- Trees of PHP arrays: keys in normal form, no key twice, valid text. -/
def IsTree (L : Libbson) : Zval → Prop
  | .null | .bool _ | .long _ | .double _ => True
  | .string s => L.utf8Validate s true = true
  | .array ht els => ht = none ∧ (keys els).Nodup ∧ AreTrees L els
  | _ => False

def AreTrees (L : Libbson) : List (Key × Zval) → Prop
  | [] => True
  | (key,z)::rest =>
    (key.Normal ∧ ∀ s, key = .str s → (0 : UInt8) ∉ s ∧ L.utf8Validate s false = true) ∧
      IsTree L z ∧ AreTrees L rest

end

/-- Root, document and array types are all `array`. -/
def Typemap.arrays : Typemap := ⟨.nativeArray,none,.nativeArray,none,.nativeArray,none,[]⟩

theorem Typemap.arrays_documentTarget (path : List CString) (pclass : Option ClassEntry) :
    Typemap.arrays.documentTarget path pclass = .array := by
  cases pclass <;> rfl

theorem Typemap.arrays_arrayTarget (path : List CString) :
    Typemap.arrays.arrayTarget path = .array := rfl

theorem Typemap.arrays_rootTarget (pclass : Option ClassEntry) :
    Typemap.arrays.rootTarget pclass = .array := by
  cases pclass <;> rfl

section
variable {L : Libbson} {U : Userland}

theorem zero_notMem_of_tree {key : Key}
    (h : ∀ s, key = .str s → (0 : UInt8) ∉ s ∧ L.utf8Validate s false = true) :
    (0 : UInt8) ∉ key.toStr := by
  cases key with
  | int n => exact zero_notMem_longToStr n
  | str s => exact (h s rfl).1

theorem keyValid_of_tree (hascii : L.AcceptsAscii) {key : Key}
    (h : ∀ s, key = .str s → (0 : UInt8) ∉ s ∧ L.utf8Validate s false = true) :
    L.keyValid (keyName key) = true := by
  rw [Libbson.keyValid,bytes_keyName (zero_notMem_of_tree h)]
  cases key with
  | int n => rw [Key.toStr,hascii _ false (longToStr_ascii n),Bool.or_true]
  | str s => rw [Key.toStr,(h s rfl).2,Bool.or_true]

mutual

theorem IsTree.isData : ∀ {z : Zval}, IsTree L z → IsData L U z
  | .null, _ | .bool _, _ | .long _, _ | .double _, _ => trivial
  | .string _, h => h
  | .array _ _, h => ⟨h.1,h.2.2.areData⟩

theorem AreTrees.areData : ∀ {els : List (Key × Zval)}, AreTrees L els → AreData L U els
  | [], _ => trivial
  | (_,_)::_, h => ⟨zero_notMem_of_tree h.1.2,h.2.1.isData,h.2.2.areData⟩

end

theorem AreTrees.symtable_keyName {els : List (Key × Zval)} (h : AreTrees L els) :
    (els.map fun e => (keyName e.1,e.2)).map (fun e => (symtable e.1.bytes,e.2)) = els := by
  induction els with
  | nil => rfl
  | cons e els ih =>
    obtain ⟨key,z⟩ := e
    obtain ⟨⟨hnormal,hkey⟩,-,hrest⟩ := h
    simp only [List.map_cons,ih hrest,bytes_keyName (zero_notMem_of_tree hkey),
      symtable_toStr hnormal]

theorem toBson_ne_binary {z : Zval} (h : IsTree L z) (subtype : UInt8) (data : Bytes) :
    toBson L z ≠ .binary subtype data := by
  cases z with
  | undef | bson | cursorId | object | reference | resource => exact h.elim
  | null | bool | double | string => exact BsonValue.noConfusion
  | long n =>
    rw [toBson,intValue]
    split <;> exact BsonValue.noConfusion
  | array ht els =>
    rw [toBson]
    split <;> exact BsonValue.noConfusion

/-- The encoding of a tree is accepted and materialises to the tree. -/
theorem materialise_toBson (hascii : L.AcceptsAscii) :
    (∀ z, IsTree L z → L.textValid (toBson L z) = true ∧ accepts L (toBson L z) = true ∧
      ∀ path, materialise L U .arrays path [] (toBson L z) = (z,[])) ∧
    (∀ els, AreTrees L els → acceptsAll L (toFields L els) = true ∧
      ∀ path, materialiseAll L U .arrays path [] (toFields L els) =
        (els.map fun e => (keyName e.1,e.2),[])) := by
  refine Zval.induction ?leaf ?array ?object ?reference ?nil ?cons
  case leaf =>
    intro z hl hz
    cases z with
    | array | object | reference => exact hl.elim
    | undef | bson | cursorId | resource => exact hz.elim
    | null | bool | double => exact ⟨rfl,rfl,fun _ => rfl⟩
    | long n =>
      exact ⟨(intValue_valid L n).1,(intValue_valid L n).2,
        fun path => materialise_intValue L U .arrays path [] n⟩
    | string s => exact ⟨hz,rfl,fun _ => rfl⟩
  case array =>
    intro ht els ih hz
    obtain ⟨rfl,hnodup,hels⟩ := hz
    obtain ⟨haccepts,hfields⟩ := ih hels
    rw [toBson]
    cases hk : keysAreIndices 0 els with
    | true =>
      simp only [if_true]
      refine ⟨rfl,haccepts,fun path => ?_⟩
      have hvalues : ((els.map fun e => (keyName e.1,e.2)).map Prod.snd) = els.map Prod.snd := by
        simp
      simp only [materialise,hfields,Typemap.arrays_arrayTarget,Target.apply,ofFields_true,
        hvalues,indexedFrom_of_keysAreIndices hk]
    | false =>
      simp only [Bool.false_eq_true,if_false]
      refine ⟨rfl,haccepts,fun path => ?_⟩
      simp only [materialise,hfields,Typemap.arrays_documentTarget,Target.apply,ofFields_false,
        hels.symtable_keyName,updateAll_self els hnodup]
  case object =>
    intro ce ht properties returned _ _ hz
    exact hz.elim
  case reference =>
    intro z _ hz
    exact hz.elim
  case nil =>
    intro _
    exact ⟨rfl,fun _ => rfl⟩
  case cons =>
    intro key z rest ihz ihr hz
    obtain ⟨hkey,htree,hrest⟩ := hz
    obtain ⟨htext,haccepts,hvalue⟩ := ihz htree
    obtain ⟨hacceptsAll,hfields⟩ := ihr hrest
    have hname := keyValid_of_tree hascii hkey.2
    constructor
    · simp only [toFields,acceptsAll,hname,htext,haccepts,hacceptsAll,Bool.and_self]
    · intro path
      simp only [toFields,materialiseAll,hvalue,autoloadField_eq_self (toBson_ne_binary htree),
        hfields,List.map_cons]

end

/-- Encoding a tree of arrays and decoding it to arrays gives the same tree. -/
theorem arrays_roundTrip (L : Libbson) (U : Userland) (hascii : L.AcceptsAscii)
    (els : List (Key × Zval)) (h : IsTree L (.array none els)) :
    let encoded := zvalToBson L U (.array none els) .none []
    let decoded :=
      bsonToZvalEx L U (.read encoded.1 true) { BsonState.init with map := .arrays } []
    encoded.2.2 = [] ∧ decoded.ok = true ∧ decoded.state.zchild = .array none els ∧
      decoded.exceptions = [] := by
  obtain ⟨-,hnodup,hels⟩ := h
  obtain ⟨hd,hsame⟩ := closeFields_yields ((append_data L U).2 els hels.areData false
    (Encoder.init []) rfl)
  obtain ⟨haccepts,hfields⟩ := (materialise_toBson (U:=U) hascii).2 els hels
  have hencoded : (zvalToBson L U (.array none els) .none []).1 = toFields L els := hd
  have hroot : materialiseRoot L U .arrays [] (toFields L els) = (.array none els,[]) := by
    simp only [materialiseRoot,hfields,Typemap.arrays_rootTarget,Target.apply,ofFields_false,
      hels.symtable_keyName,updateAll_self els hnodup]
  obtain ⟨hok,hz,heg⟩ := bsonToZvalEx_fresh (U:=U) haccepts .arrays []
  rw [hroot] at hz heg
  simp only [hencoded]
  exact ⟨hsame.exceptions,hok,hz,heg⟩

/-- A map that holds a list, a list with a hole and a number beyond int32. -/
theorem arrays_roundTrip_nested :
    let els : List (Key × Zval) := [(.str (ascii "a"),.array none [(.int 0,.null),(.int 1,.bool true)]),
      (.int (-5),.array none [(.int 1,.string (ascii "x"))]),(.str [],.long 2147483648)]
    let encoded := zvalToBson .ascii (.keeping .person) (.array none els) .none []
    let decoded := bsonToZvalEx .ascii (.keeping .person) (.read encoded.1 true)
      { BsonState.init with map := .arrays } []
    encoded.2.2 = [] ∧ decoded.ok = true ∧ decoded.state.zchild = .array none els ∧
      decoded.exceptions = [] :=
  arrays_roundTrip .ascii (.keeping .person) Libbson.ascii_acceptsAscii _
    ⟨rfl,by decide,⟨by decide,by simp; decide⟩,⟨rfl,by decide,by simp [AreTrees,IsTree,Key.Normal]⟩,
      ⟨by decide,by simp⟩,⟨rfl,by decide,by simp [AreTrees,IsTree,Key.Normal]; decide⟩,
      ⟨by decide,by simp; decide⟩,trivial,trivial⟩

end Phongo
