import Mathlib.Tactic.Common
import Phongo.Concern.Object

/-! `ReadConcern.c`: read concerns and their serialization. -/
namespace Phongo

/-- libmongoc's functions on a `mongoc_read_concern_t`. -/
structure MongocReadConcern (Rc : Type) where
  new : Rc
  setLevel : Rc → CString → Rc
  getLevel : Rc → Option CString
  isDefault : Rc → Bool

structure MongocReadConcern.Lawful {Rc : Type} (M : MongocReadConcern Rc) : Prop where
  getLevel_new : M.getLevel M.new = none
  getLevel_setLevel : ∀ rc level, M.getLevel (M.setLevel rc level) = some level
  isDefault : ∀ rc, M.isDefault rc = (M.getLevel rc).isNone

namespace ReadConcernObject

def className : Bytes := ascii "MongoDB\\Driver\\ReadConcern"

variable {Rc : Type} (M : MongocReadConcern Rc) (F : SerialFormat)

/-- `php_phongo_readconcern_init_from_hash` -/
def initFromHash (props : Props) (eg : Pending) : Initialisation Rc :=
  match props.findStr "level" with
  | some (.string level) => ⟨true,some (M.setLevel M.new (CString.ofBytes level)),eg⟩
  | some _ => ⟨false,none,throwException .invalidArgument
      "%s initialization requires \"level\" string field" [.bytes className] eg⟩
  | none => ⟨true,some M.new,eg⟩

/-- `ReadConcern::__construct` -/
def construct (level : Option Bytes) : Option Rc :=
  match level with
  | some level => some (M.setLevel M.new (CString.ofBytes level))
  | none => some M.new

/-- `php_phongo_readconcern_get_properties_hash`; no handle is no property. -/
def getProperties : Option Rc → Props
  | none => []
  | some rc =>
    match M.getLevel rc with
    | some level => [property "level" (.string level.bytes)]
    | none => []

/-- `ReadConcern::serialize`; NULL without a handle. -/
def serialize : Option Rc → Option Bytes
  | none => none
  | some rc =>
    match M.getLevel rc with
    | some level => some (serializeProps F [property "level" (.string level.bytes)])
    | none => some []

/-- `ReadConcern::unserialize` -/
def unserialize (serialized : Bytes) (eg : Pending) : Option (Initialisation Rc) :=
  unserializeMethod F className (fun props eg => some (initFromHash M props eg)) serialized eg

/-- An initialisation without an exception gave an object that looks like `rc`. -/
def Restored (rc : Rc) (r : Initialisation Rc) : Prop :=
  r.exceptions = [] ∧ ∃ rc', r.handle = some rc' ∧ M.getLevel rc' = M.getLevel rc ∧
    M.isDefault rc' = M.isDefault rc

/-- Each way to export the object is undone by its counterpart: `serialize` and `unserialize`,
`__serialize` and `__unserialize`, the properties and `__set_state`. -/
def RoundTrips (o : Option Rc) : Prop :=
  ∃ rc, o = some rc ∧
    (∃ s r, serialize M F o = some s ∧ unserialize M F s [] = some r ∧ Restored M rc r) ∧
    Restored M rc (initFromHash M (getProperties M o) [])

variable {M}

theorem getProperties_level {rc : Rc} {level : CString} (h : M.getLevel rc = some level) :
    getProperties M (some rc) = [property "level" (.string level.bytes)] := by
  simp [getProperties,h]

theorem initFromHash_level (level : CString) (eg : Pending) :
    initFromHash M [property "level" (.string level.bytes)] eg =
      ⟨true,some (M.setLevel M.new level),eg⟩ := by
  have hb := CString.ofBytes_bytes level
  show Initialisation.mk true (some (M.setLevel M.new (CString.ofBytes level.bytes))) eg = _
  rw [hb]

theorem restored_properties (hM : M.Lawful) (rc : Rc) :
    Restored M rc (initFromHash M (getProperties M (some rc)) []) := by
  cases hl : M.getLevel rc with
  | none =>
    have hprops : getProperties M (some rc) = [] := by simp [getProperties,hl]
    rw [hprops]
    refine ⟨rfl,M.new,rfl,by rw [hM.getLevel_new,hl],?_⟩
    rw [hM.isDefault,hM.isDefault,hM.getLevel_new,hl]
  | some level =>
    rw [getProperties_level hl,initFromHash_level]
    have hset := hM.getLevel_setLevel M.new level
    refine ⟨rfl,_,rfl,by rw [hset,hl],?_⟩
    rw [hM.isDefault,hM.isDefault,hset,hl]

/-- `serialize` and `unserialize` fail exactly without a level: the empty payload is not read. -/
theorem readConcern_roundTrips_iff (hM : M.Lawful) (F : SerialFormat) (o : Option Rc) :
    RoundTrips M F o ↔ ∃ rc level, o = some rc ∧ M.getLevel rc = some level := by
  constructor
  · rintro ⟨rc,rfl,⟨s,r,hs,hr,-,rc',hrc',-⟩,-⟩
    cases hl : M.getLevel rc with
    | some level => exact ⟨rc,level,rfl,hl⟩
    | none =>
      simp only [serialize,hl,Option.some.injEq] at hs
      subst hs
      simp only [unserialize,unserializeMethod,List.isEmpty_nil,if_true,Option.some.injEq] at hr
      subst hr
      cases hrc'
  · rintro ⟨rc,level,rfl,hl⟩
    have hback := restored_properties hM rc
    have hs : serialize M F (some rc) =
        some (serializeProps F [property "level" (.string level.bytes)]) := by
      simp only [serialize,hl]
    refine ⟨rc,rfl,⟨_,_,hs,?_,getProperties_level hl ▸ hback⟩,hback⟩
    refine unserializeMethod_serializeProps F className ⟨rfl,?_,?_,?_⟩ _ _
    · exact List.nodup_singleton _
    · intro key hkey
      rw [List.mem_singleton.mp hkey]
      have hnormal : Key.Normal (.str (ascii "level")) := by decide
      exact hnormal
    · exact restoreAll_iff.mpr fun e he => List.mem_singleton.mp he ▸ trivial

def plain : MongocReadConcern (Option CString) where
  new := none
  setLevel _ level := some level
  getLevel rc := rc
  isDefault rc := rc.isNone

theorem plain_lawful : plain.Lawful := ⟨rfl,fun _ _ => rfl,fun _ => rfl⟩

theorem roundTrips_local :
    RoundTrips plain .scalars (construct plain (some (ascii "local"))) :=
  (readConcern_roundTrips_iff plain_lawful .scalars _).mpr ⟨_,_,rfl,rfl⟩

theorem not_roundTrips_default : ¬ RoundTrips plain .scalars (construct plain none) := by
  rintro ⟨rc,hrc,⟨s,r,hs,hr,-,rc',hrc',-⟩,-⟩
  cases hrc
  cases hs
  cases hr
  cases hrc'

end ReadConcernObject
end Phongo
