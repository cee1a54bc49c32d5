import Mathlib.Tactic.Common
import Phongo.Concern.Object
import Phongo.Lib.Attempt

/-! What the value classes of `MongoDB\BSON` share: an object is initialised by its constructor
or from a table of properties, and exported to such a table. -/
namespace Phongo
open OrderedTable

/-- What a class of values brings to the methods that copy its objects. An object is nothing
until it is initialised. -/
structure ValueClass (Intern : Type) where
  name : Bytes
  /-- `init_from_hash`, for an object that may be initialised already -/
  initFromHash : Option Intern → Props → Pending → Initialisation Intern
  /-- the `get_properties` handler -/
  getProperties : Intern → Attempt Exception Props
  /-- what the `__serialize` method returns -/
  magicSerialized : Intern → Attempt Exception Props
  /-- the array the `serialize` method writes -/
  serialized : Intern → Attempt Exception Props
  /-- the `clone_object` handler; nothing where there is none, or an assertion fails -/
  cloneObject : Intern → Pending → Option (Initialisation Intern)
  /-- whether `__set_state` is among the methods -/
  hasSetState : Bool

/-- The ways to a copy: `clone`, `unserialize` after `serialize`, `__unserialize` after
`__serialize`, and `__set_state` of the properties. -/
inductive CopyPath
  | clone | serialize | magicSerialize | setState
  deriving DecidableEq

namespace ValueClass
variable {Intern : Type} (C : ValueClass Intern) (F : SerialFormat)
  (tables : BsonObject → Option Props)

/-- `HASH_OF`, where the objects of the driver have the tables their handlers give. -/
def tableOf : Zval → Option Props
  | .bson obj => tables obj
  | z => z.hashOf

/-- The common body of the `unserialize` methods; nothing where a NULL table is searched. -/
def unserializeMethod (intern : Option Intern) (serialized : Bytes) (eg : Pending) :
    Option (Initialisation Intern) :=
  match unserialize F serialized with
  | none => some ⟨false,intern,throwException .unexpectedValue "%s unserialization failed"
      [.bytes C.name] eg⟩
  | some z => (tableOf tables z).map fun props => C.initFromHash intern props eg

/-- Goes on with the properties where they were exported without an exception. -/
def whenExported (exported : Attempt Exception Props)
    (next : Props → Option (Initialisation Intern)) : Option (Initialisation Intern) :=
  match exported [] with
  | (some props,[]) => next props
  | _ => none

def copy (intern : Intern) : CopyPath → Option (Initialisation Intern)
  | .clone => C.cloneObject intern []
  | .serialize => whenExported (C.serialized intern) fun props =>
    C.unserializeMethod F tables none (serializeProps F props) []
  | .magicSerialize => whenExported (C.magicSerialized intern) fun props =>
    some (C.initFromHash none props [])
  | .setState => whenExported (C.getProperties intern) fun props =>
    if C.hasSetState then some (C.initFromHash none props []) else none

/-- The copy is made without an exception, and is as `Same` asks. -/
def Copied (Same : Intern → Prop) (r : Option (Initialisation Intern)) : Prop :=
  ∃ intern, r = some ⟨true,some intern,[]⟩ ∧ Same intern

variable {C F tables}

/-- What comes back of a table is what the object is initialised from. -/
theorem unserializeMethod_eq {props : Props} (h : Regular F (.array none props))
    (intern : Option Intern) (eg : Pending) :
    C.unserializeMethod F tables intern (serializeProps F props) eg =
      some ((comesBackAll F props).elim
        ⟨false,intern,throwException .unexpectedValue "%s unserialization failed"
          [.bytes C.name] eg⟩
        fun props => C.initFromHash intern props eg) := by
  unfold unserializeMethod serializeProps
  rw [unserialize_eq h,comesBack]
  cases comesBackAll F props <;> rfl

/-- A table that comes back is what the object is initialised from. -/
theorem unserializeMethod_serializeProps {props : Props} (h : Restores F (.array none props))
    (intern : Option Intern) (eg : Pending) :
    C.unserializeMethod F tables intern (serializeProps F props) eg =
      some (C.initFromHash intern props eg) := by
  unfold unserializeMethod serializeProps
  rw [unserialize_varSerialize h]
  rfl

theorem whenExported_of_eq {exported : Attempt Exception Props} {props : Props}
    (h : exported [] = (some props,[])) (next : Props → Option (Initialisation Intern)) :
    whenExported exported next = next props := by
  unfold whenExported
  rw [h]

theorem copy_serialize {intern : Intern} {props : Props}
    (h : C.serialized intern [] = (some props,[])) (hrestores : Restores F (.array none props)) :
    C.copy F tables intern .serialize = some (C.initFromHash none props []) := by
  show whenExported _ _ = _
  rw [whenExported_of_eq h]
  exact unserializeMethod_serializeProps hrestores none []

theorem copy_magicSerialize {intern : Intern} {props : Props}
    (h : C.magicSerialized intern [] = (some props,[])) :
    C.copy F tables intern .magicSerialize = some (C.initFromHash none props []) :=
  whenExported_of_eq h _

theorem copy_setState {intern : Intern} {props : Props}
    (h : C.getProperties intern [] = (some props,[])) : C.copy F tables intern .setState =
      if C.hasSetState then some (C.initFromHash none props []) else none :=
  whenExported_of_eq h _

theorem copied_some {Same : Intern → Prop} {intern : Intern} :
    Copied Same (some ⟨true,some intern,[]⟩) ↔ Same intern := by
  constructor
  · rintro ⟨intern',h,hsame⟩
    cases h
    exact hsame
  · intro hsame
    exact ⟨intern,rfl,hsame⟩

theorem not_copied_of_exceptions {Same : Intern → Prop} {r : Initialisation Intern}
    (h : r.exceptions ≠ []) : ¬ Copied Same (some r) := by
  rintro ⟨intern,hr,-⟩
  cases hr
  exact h rfl

end ValueClass

theorem regular_pair (F : SerialFormat) {name name' : String} {z z' : Zval}
    (hz : Regular F z) (hz' : Regular F z') (hne : ascii name ≠ ascii name')
    (hnormal : Key.Normal (.str (ascii name))) (hnormal' : Key.Normal (.str (ascii name'))) :
    Regular F (.array none [property name z,property name' z']) := by
  refine ⟨?_,?_,hz,hz',trivial⟩
  · simp [property,hne]
  · intro key hkey
    rcases List.mem_pair.mp hkey with rfl | rfl
    · exact hnormal
    · exact hnormal'

theorem restores_pair (F : SerialFormat) {name name' : String} {z z' : Zval}
    (hz : Restores F z) (hz' : Restores F z') (hne : ascii name ≠ ascii name')
    (hnormal : Key.Normal (.str (ascii name))) (hnormal' : Key.Normal (.str (ascii name'))) :
    Restores F (.array none [property name z,property name' z']) := by
  obtain ⟨hregular,-⟩ := (restores_comesBack F).1 z hz
  obtain ⟨hregular',-⟩ := (restores_comesBack F).1 z' hz'
  obtain ⟨hnodup,hkeys,-⟩ := regular_pair F hregular hregular' hne hnormal hnormal'
  exact ⟨rfl,hnodup,hkeys,hz,hz',trivial⟩

theorem restores_single (F : SerialFormat) {name : String} {z : Zval} (hz : Restores F z)
    (hnormal : Key.Normal (.str (ascii name))) :
    Restores F (.array none [property name z]) := by
  refine ⟨rfl,List.nodup_singleton _,?_,hz,trivial⟩
  intro key hkey
  rw [List.mem_singleton.mp hkey]
  exact hnormal

end Phongo
