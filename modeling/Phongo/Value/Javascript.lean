import Mathlib.Tactic.Common
import Phongo.Bson.Reencoding
import Phongo.Value.Object

/-! `Javascript.c`. The code goes by its length in some places and up to its first NUL in others,
and the scope through the decoder and the encoder. -/
namespace Phongo
open OrderedTable

/-- `php_phongo_javascript_t` -/
structure Javascript where
  code : Bytes
  scope : Option Doc

namespace Javascript

def className : Bytes := ascii "MongoDB\\BSON\\Javascript"

section
variable (L : Libbson) (U : Userland)

/-- A scope that is not there, null, an array or an object. -/
def scopeAccepted : Option Zval → Bool
  | none | some .null => true
  | some z => z.isArrayOrObject

/-- The scope document that an accepted scope makes, and what its encoding throws. -/
def scopeDocument : Option Zval → Pending → Option Doc × Pending
  | some z, eg => if z.isArrayOrObject then zvalToDoc L U z eg else (none,eg)
  | none, eg => (none,eg)

/-- `php_phongo_javascript_init`, which does not tell whether encoding the scope threw -/
def init (intern : Option Javascript) (code : Bytes) (scope : Option Zval) (eg : Pending) :
    Initialisation Javascript :=
  if ¬ scopeAccepted scope then
    ⟨false,intern,throwException .invalidArgument "Expected scope to be array or object, %s given"
      [.bytes (scope.elim [] Zval.classOrTypeName)] eg⟩
  else if (0 : UInt8) ∈ code then
    ⟨false,intern,throwException .invalidArgument "Code cannot contain null bytes" [] eg⟩
  else
    let r := scopeDocument L U scope eg
    ⟨true,some ⟨code,r.1⟩,r.2⟩

/-- `php_phongo_javascript_init_from_hash` -/
def initFromHash (intern : Option Javascript) (props : Props) (eg : Pending) :
    Initialisation Javascript :=
  match props.findStr "code" with
  | some (.string code) => init L U intern code (props.findStr "scope") eg
  | _ => ⟨false,intern,throwException .invalidArgument
      "%s initialization requires \"code\" string field" [.bytes className] eg⟩

/-- The scope as a PHP value, which is NULL without a scope; nothing where it cannot be decoded. -/
def exportScope (scope : Option Doc) : Attempt Exception Zval := fun eg =>
  match scope with
  | some scope =>
    let r := bsonToZvalEx L U (.read scope true) BsonState.init eg
    (if r.ok then some r.state.zchild else none,r.exceptions)
  | none => (some .null,eg)

/-- `php_phongo_javascript_get_properties_hash`, whose code ends at its first NUL -/
def getProperties (js : Javascript) : Attempt Exception Props := do
  let scope ← exportScope L U js.scope
  return [property "code" (.string (cstr js.code)),property "scope" scope]

/-- The array that `serialize` writes. No BSON document has the length 0. -/
def serialized (js : Javascript) : Attempt Exception Props := do
  let scope ← exportScope L U js.scope
  return [property "code" (.string js.code),property "scope" scope]

/-- `php_phongo_javascript_clone_object`; `bson_copy` asserts that there is a scope -/
def cloneObject (js : Javascript) (eg : Pending) : Option (Initialisation Javascript) :=
  js.scope.map fun scope =>
    let r := init L U none js.code none eg
    { r with handle := r.handle.map fun copy => { copy with scope := some scope } }

def valueClass : ValueClass Javascript where
  name := className
  initFromHash := initFromHash L U
  getProperties := getProperties L U
  magicSerialized := getProperties L U
  serialized := serialized L U
  cloneObject := cloneObject L U
  hasSetState := true

/-- The objects a program can hold: initialised without an exception, or decoded. -/
inductive Reachable : Javascript → Prop
  | init {code scope js} (h : init L U none code scope [] = ⟨true,some js,[]⟩) : Reachable js
  | decodeCode {code} (h : L.textValid (.code code) = true) : Reachable ⟨code,none⟩
  | decodeScope {code scope} (h : L.textValid (.codeWithScope code scope) = true)
      (hscope : (bsonToZvalEx L U (.read scope true) BsonState.init []).ok = true) :
      Reachable ⟨code,some scope⟩

end

section
variable {L : Libbson} {U : Userland} {code : Bytes} {z : Zval}

theorem exportScope_of_decodes {scope : Doc} (h : Decodes L U .default scope z) :
    exportScope L U (some scope) [] = (some z,[]) := by
  have hok : (bsonToZvalEx L U (.read scope true) BsonState.init []).ok = true := h.ok
  simp only [exportScope,hok,if_true]
  exact Prod.ext (congrArg some h.zchild) h.exceptions

/-- What `unserialize` makes of what `serialize` writes: code with what came back of its scope. -/
theorem copy_serialize {F : SerialFormat} {tables : BsonObject → Option Props} {js : Javascript}
    (hz : exportScope L U js.scope [] = (some z,[])) (hregular : Regular F z) :
    (valueClass L U).copy F tables js .serialize = some ((comesBack F z).elim
      ⟨false,none,throwException .unexpectedValue "%s unserialization failed"
        [.bytes className] []⟩
      fun z => init L U none js.code (some z) []) := by
  have hserialized : serialized L U js [] =
      (some [property "code" (.string js.code),property "scope" z],[]) := Attempt.bind_of_some hz
  have hpairs : Regular F (.array none [property "code" (.string js.code),property "scope" z]) :=
    regular_pair F trivial hregular (by decide) (by decide) (by decide)
  show ValueClass.whenExported (serialized L U js) _ = _
  rw [ValueClass.whenExported_of_eq hserialized,ValueClass.unserializeMethod_eq hpairs]
  have hpair : comesBackAll F [property "code" (.string js.code),property "scope" z] =
      (comesBack F z).map fun z =>
        [property "code" (.string js.code),property "scope" z] := by
    rw [property,property,comesBackAll,comesBackAll,comesBackAll,comesBack]
    cases comesBack F z <;> rfl
  rw [hpair]
  cases comesBack F z <;> rfl

theorem init_accepted {d : Option Doc} (ha : scopeAccepted (some z) = true)
    (hd : scopeDocument L U (some z) [] = (d,[])) (hcode : (0 : UInt8) ∉ code) :
    init L U none code (some z) [] = ⟨true,some ⟨code,d⟩,[]⟩ := by
  unfold init
  rw [if_neg (not_not_intro ha),if_neg hcode,hd]

theorem scopeAccepted_of_isArrayOrObject (h : z.isArrayOrObject = true) :
    scopeAccepted (some z) = true := by
  cases z <;> first | rfl | exact h

theorem scopeDocument_of_isArrayOrObject {d : Doc} (hz : z.isArrayOrObject = true)
    (hd : zvalToDoc L U z [] = (some d,[])) : scopeDocument L U (some z) [] = (some d,[]) := by
  rw [scopeDocument,if_pos hz,hd]

theorem exceptions_init_of_nul (ha : scopeAccepted (some z) = true) (hcode : (0 : UInt8) ∈ code) :
    (init L U none code (some z) []).exceptions ≠ [] := by
  unfold init
  rw [if_neg (not_not_intro ha),if_pos hcode]
  exact List.cons_ne_nil _ _

end

end Javascript
end Phongo
