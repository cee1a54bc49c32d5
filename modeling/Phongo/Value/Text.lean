import Mathlib.Tactic.Common
import Phongo.Value.Comparison
import Phongo.Value.Object

/-! `ObjectId.c`, `Decimal128.c`, `Symbol.c` and `DBPointer.c`: values that are exported as
strings, and read from them. -/
namespace Phongo
open OrderedTable

/-- libbson with the functions that read and write these strings. -/
structure TextLibbson where
  libbson : Libbson
  /-- `bson_oid_is_valid` -/
  oidIsValid : Bytes → Bool
  /-- `bson_decimal128_from_string`, which sets the number whatever it returns -/
  decimal128FromString : CString → Bool × (UInt64 × UInt64)
  /-- `bson_decimal128_to_string` -/
  decimal128ToString : UInt64 × UInt64 → CString

/-- A valid identifier is a string of 24 hexadecimal digits, and what is written is valid. -/
structure TextLibbson.Lawful (T : TextLibbson) : Prop where
  oid : ∀ o, T.libbson.oidInitFromString (T.libbson.oidToString o) = o
  oidToString : ∀ o, T.oidIsValid (T.libbson.oidToString o).bytes = true
  length : ∀ s, T.oidIsValid s = true → s.length = 24
  nul : ∀ s, T.oidIsValid s = true → (0 : UInt8) ∉ s

def parseOidError (hex : Bytes) (eg : Pending) : Pending :=
  throwException .invalidArgument "Error parsing ObjectId string: %s" [.bytes (cstr hex)] eg

namespace ObjectId
variable (T : TextLibbson)

def className : Bytes := ascii "MongoDB\\BSON\\ObjectId"

/-- `php_phongo_objectid_init_from_hex_string` -/
def initFromHexString (intern : Option CString) (hex : Bytes) (eg : Pending) :
    Initialisation CString :=
  if T.oidIsValid hex then
    ⟨true,some (T.libbson.oidToString (T.libbson.oidInitFromString (CString.ofBytes hex))),eg⟩
  else ⟨false,intern,parseOidError hex eg⟩

/-- `php_phongo_objectid_init_from_hash` -/
def initFromHash (intern : Option CString) (props : Props) (eg : Pending) :
    Initialisation CString :=
  match props.findStr "oid" with
  | some (.string s) => initFromHexString T intern s eg
  | _ => ⟨false,intern,throwException .invalidArgument
      "%s initialization requires \"oid\" string field" [.bytes className] eg⟩

/-- `php_phongo_objectid_get_properties_hash` -/
def getProperties (oid : CString) : Props := [property "oid" (.string oid.bytes)]

/-- The array that `serialize` writes: the first `PHONGO_OID_LEN` characters. -/
def serialized (oid : CString) : Props := [property "oid" (.string (oid.bytes.take 24))]

def valueClass : ValueClass CString where
  name := className
  initFromHash := initFromHash T
  getProperties oid := pure (getProperties oid)
  magicSerialized oid := pure (getProperties oid)
  serialized oid := pure (serialized oid)
  cloneObject oid eg := some ⟨true,some oid,eg⟩
  hasSetState := true

/-- The objects a program can hold: generated, initialised from strings, or decoded. -/
inductive Reachable : CString → Prop
  | init (n : ℕ) : Reachable (T.libbson.oidToString (T.libbson.oidInit n))
  | initFromHexString {intern hex eg oid}
      (h : initFromHexString T intern hex eg = ⟨true,some oid,eg⟩) : Reachable oid
  | decode {o oid} (h : leafValue T.libbson (.oid o) = .bson (.objectId oid)) : Reachable oid

end ObjectId

namespace Decimal128
variable (T : TextLibbson)

def className : Bytes := ascii "MongoDB\\BSON\\Decimal128"

/-- `php_phongo_decimal128_init`, which overwrites the number of an object even if it fails -/
def init (intern : Option (UInt64 × UInt64)) (value : Bytes) (eg : Pending) :
    Initialisation (UInt64 × UInt64) :=
  let r := T.decimal128FromString (CString.ofBytes value)
  if r.1 then ⟨true,some r.2,eg⟩
  else ⟨false,intern.map fun _ => r.2,throwException .invalidArgument
    "Error parsing Decimal128 string: %s" [.bytes (cstr value)] eg⟩

/-- `php_phongo_decimal128_init_from_hash` -/
def initFromHash (intern : Option (UInt64 × UInt64)) (props : Props) (eg : Pending) :
    Initialisation (UInt64 × UInt64) :=
  match props.findStr "dec" with
  | some (.string s) => init T intern s eg
  | _ => ⟨false,intern,throwException .invalidArgument
      "%s initialization requires \"dec\" string field" [.bytes className] eg⟩

/-- `php_phongo_decimal128_get_properties_hash`, and the array that `serialize` writes -/
def getProperties (decimal : UInt64 × UInt64) : Props :=
  [property "dec" (.string (T.decimal128ToString decimal).bytes)]

def valueClass : ValueClass (UInt64 × UInt64) where
  name := className
  initFromHash := initFromHash T
  getProperties decimal := pure (getProperties T decimal)
  magicSerialized decimal := pure (getProperties T decimal)
  serialized decimal := pure (getProperties T decimal)
  cloneObject decimal eg := some ⟨true,some decimal,eg⟩
  hasSetState := true

end Decimal128

namespace Symbol

def className : Bytes := ascii "MongoDB\\BSON\\Symbol"

/-- `php_phongo_symbol_init` -/
def init (intern : Option Bytes) (symbol : Bytes) (eg : Pending) : Initialisation Bytes :=
  if (0 : UInt8) ∈ symbol then
    ⟨false,intern,throwException .invalidArgument "Symbol cannot contain null bytes" [] eg⟩
  else ⟨true,some symbol,eg⟩

/-- `php_phongo_symbol_init_from_hash` -/
def initFromHash (intern : Option Bytes) (props : Props) (eg : Pending) : Initialisation Bytes :=
  match props.findStr "symbol" with
  | some (.string s) => init intern s eg
  | _ => ⟨false,intern,throwException .invalidArgument
      "%s initialization requires \"symbol\" string field" [.bytes className] eg⟩

/-- `php_phongo_symbol_get_properties_hash`, where the symbol ends at its first NUL -/
def getProperties (symbol : Bytes) : Props := [property "symbol" (.string (cstr symbol))]

/-- The array that `serialize` writes. -/
def serialized (symbol : Bytes) : Props := [property "symbol" (.string symbol)]

/-- `__set_state` is intentionally missing. -/
def valueClass : ValueClass Bytes where
  name := className
  initFromHash := initFromHash
  getProperties symbol := pure (getProperties symbol)
  magicSerialized symbol := pure (getProperties symbol)
  serialized symbol := pure (serialized symbol)
  cloneObject symbol eg := some (init none symbol eg)
  hasSetState := false

end Symbol

namespace DbPointer
variable (T : TextLibbson)

def className : Bytes := ascii "MongoDB\\BSON\\DBPointer"

/-- `php_phongo_dbpointer_init_from_hash` -/
def initFromHash (intern : Option DbPointer) (props : Props) (eg : Pending) :
    Initialisation DbPointer :=
  match props.findStr "ref",props.findStr "id" with
  | some (.string ref),some (.string id) => init T.oidIsValid intern ref id eg
  | _,_ => ⟨false,intern,throwException .invalidArgument
      "%s initialization requires \"ref\" and \"id\" string fields" [.bytes className] eg⟩

/-- `php_phongo_dbpointer_get_properties_hash`, where the reference ends at its first NUL -/
def getProperties (p : DbPointer) : Props :=
  [property "ref" (.string (cstr p.ref)),property "id" (.string p.id.bytes)]

/-- The array that `serialize` writes. -/
def serialized (p : DbPointer) : Props :=
  [property "ref" (.string p.ref),property "id" (.string p.id.bytes)]

/-- The first 24 of the 25 characters of the field `id`. -/
def idBuffer (p : DbPointer) : Bytes := (p.id.bytes ++ List.replicate 24 0).take 24

/-- `__set_state` is intentionally missing. -/
def valueClass : ValueClass DbPointer where
  name := className
  initFromHash := initFromHash T
  getProperties p := pure p.getProperties
  magicSerialized p := pure p.getProperties
  serialized p := pure p.serialized
  cloneObject p eg := some (init T.oidIsValid none p.ref p.idBuffer eg)
  hasSetState := false

end DbPointer

section Copies
variable {T : TextLibbson} {F : SerialFormat} {tables : BsonObject → Option Props}

/-- A copy without an exception is the same. -/
def CopiedAs {Intern : Type} (intern : Intern) (r : Option (Initialisation Intern)) : Prop :=
  ValueClass.Copied (· = intern) r

theorem copiedAs_some {Intern : Type} {intern intern' : Intern} :
    CopiedAs intern (some ⟨true,some intern',[]⟩) ↔ intern' = intern := ValueClass.copied_some

def CopyThrows {Intern : Type} (r : Option (Initialisation Intern)) : Prop :=
  ∃ copy, r = some copy ∧ copy.exceptions ≠ []

theorem copyThrows_some {Intern : Type} {copy : Initialisation Intern}
    (h : copy.exceptions ≠ []) : CopyThrows (some copy) := ⟨copy,rfl,h⟩

theorem not_copiedAs_none {Intern : Type} (intern : Intern) : ¬ CopiedAs intern none := by
  rintro ⟨_,h,-⟩
  cases h

theorem objectId_reachable {oid : CString} (h : ObjectId.Reachable T oid) :
    ∃ o, oid = T.libbson.oidToString o := by
  cases h with
  | init n => exact ⟨_,rfl⟩
  | initFromHexString h =>
    rw [ObjectId.initFromHexString] at h
    split at h
    · cases h
      exact ⟨_,rfl⟩
    · cases h
  | decode h =>
    cases h
    exact ⟨_,rfl⟩

theorem take_of_valid (hT : T.Lawful) {s : Bytes} (h : T.oidIsValid s = true) :
    s.take 24 = s := by
  apply List.take_of_length_le
  have hlength := hT.length s h
  omega

theorem objectId_initFromHash (hT : T.Lawful) (o : Oid) :
    ObjectId.initFromHash T none (ObjectId.getProperties (T.libbson.oidToString o)) [] =
      ⟨true,some (T.libbson.oidToString o),[]⟩ := by
  show ObjectId.initFromHexString T none (T.libbson.oidToString o).bytes [] = _
  simp [ObjectId.initFromHexString,hT.oidToString,hT.oid]

theorem objectId_copied (hT : T.Lawful) {oid : CString} (h : ObjectId.Reachable T oid)
    (path : CopyPath) : CopiedAs oid ((ObjectId.valueClass T).copy F tables oid path) := by
  obtain ⟨o,rfl⟩ := objectId_reachable h
  have hinit := objectId_initFromHash hT o
  have hserialized : ObjectId.serialized (T.libbson.oidToString o) =
      ObjectId.getProperties (T.libbson.oidToString o) := by
    rw [ObjectId.serialized,take_of_valid hT (hT.oidToString o)]
    rfl
  have hrestores : Restores F (.array none (ObjectId.getProperties (T.libbson.oidToString o))) :=
    restores_single F trivial (by decide)
  have hcopy : (ObjectId.valueClass T).copy F tables (T.libbson.oidToString o) path =
      some ⟨true,some (T.libbson.oidToString o),[]⟩ := by
    rw [← hinit]
    cases path with
    | clone => exact congrArg some hinit.symm
    | serialize =>
      refine ValueClass.copy_serialize ?_ hrestores
      show (some (ObjectId.serialized _),_) = _
      rw [hserialized]
    | magicSerialize =>
      rw [ValueClass.copy_magicSerialize rfl]
      rfl
    | setState =>
      rw [ValueClass.copy_setState rfl]
      rfl
  rw [hcopy,copiedAs_some]

theorem restores_decimal128 (decimal : UInt64 × UInt64) :
    Restores F (.array none (Decimal128.getProperties T decimal)) :=
  restores_single F trivial (by decide)

theorem restores_symbol (symbol : Bytes) : Restores F (.array none (Symbol.serialized symbol)) :=
  restores_single F trivial (by decide)

theorem restores_dbPointer (p : DbPointer) : Restores F (.array none p.serialized) :=
  restores_pair F trivial trivial (by decide) (by decide) (by decide)

/-- A clone is the number itself, the other paths go through its digits. -/
theorem decimal128_copied_iff (decimal : UInt64 × UInt64) (path : CopyPath) :
    CopiedAs decimal ((Decimal128.valueClass T).copy F tables decimal path) ↔
      path = .clone ∨
        T.decimal128FromString (T.decimal128ToString decimal) = (true,decimal) := by
  have hinit : CopiedAs decimal (some ((Decimal128.valueClass T).initFromHash none
      (Decimal128.getProperties T decimal) [])) ↔
      T.decimal128FromString (T.decimal128ToString decimal) = (true,decimal) := by
    show CopiedAs decimal (some (Decimal128.init T none
      (T.decimal128ToString decimal).bytes [])) ↔ _
    rw [Decimal128.init,CString.ofBytes_bytes]
    rcases T.decimal128FromString (T.decimal128ToString decimal) with ⟨ok,value⟩
    cases ok with
    | true => simp [copiedAs_some]
    | false =>
      simp only [Bool.false_eq_true,if_false,Prod.mk.injEq,false_and,iff_false]
      exact ValueClass.not_copied_of_exceptions (List.cons_ne_nil _ _)
  cases path with
  | clone => exact iff_of_true (copiedAs_some.mpr rfl) (Or.inl rfl)
  | serialize =>
    rw [ValueClass.copy_serialize rfl (restores_decimal128 decimal)]
    simpa using hinit
  | magicSerialize =>
    rw [ValueClass.copy_magicSerialize rfl]
    simpa using hinit
  | setState =>
    rw [ValueClass.copy_setState rfl]
    simpa [Decimal128.valueClass] using hinit

/-- An initialisation that looks for a NUL in what it is given. -/
theorem symbol_init_copied_iff (symbol : Bytes) :
    CopiedAs symbol (some (Symbol.init none symbol [])) ↔ (0 : UInt8) ∉ symbol := by
  unfold Symbol.init
  split_ifs with h
  · exact iff_of_false (ValueClass.not_copied_of_exceptions (List.cons_ne_nil _ _))
      (not_not_intro h)
  · exact iff_of_true (copiedAs_some.mpr rfl) h

/-- `__serialize` and `__unserialize` cut a symbol at its first NUL and do not say so. -/
theorem symbol_copy_magicSerialize (symbol : Bytes) :
    Symbol.valueClass.copy F tables symbol .magicSerialize = some ⟨true,some (cstr symbol),[]⟩ := by
  rw [ValueClass.copy_magicSerialize rfl]
  show some (Symbol.init none (cstr symbol) []) = _
  rw [Symbol.init,if_neg (zero_notMem_cstr symbol)]

theorem symbol_copied_iff (symbol : Bytes) (path : CopyPath) :
    CopiedAs symbol (Symbol.valueClass.copy F tables symbol path) ↔
      path ≠ .setState ∧ (0 : UInt8) ∉ symbol := by
  have hinit := symbol_init_copied_iff symbol
  cases path with
  | clone =>
    show CopiedAs symbol (some (Symbol.init none symbol [])) ↔ _
    simpa using hinit
  | serialize =>
    rw [ValueClass.copy_serialize rfl (restores_symbol symbol)]
    show CopiedAs symbol (some (Symbol.init none symbol [])) ↔ _
    simpa using hinit
  | magicSerialize =>
    rw [symbol_copy_magicSerialize,copiedAs_some,cstr_eq_self_iff]
    simp
  | setState =>
    rw [ValueClass.copy_setState rfl]
    show CopiedAs symbol none ↔ _
    simpa using not_copiedAs_none symbol

/-- A NUL is noticed by the paths that hand the symbol on with its length. -/
theorem symbol_copyThrows {symbol : Bytes} (h : (0 : UInt8) ∈ symbol) {path : CopyPath}
    (hpath : path = .clone ∨ path = .serialize) :
    CopyThrows (Symbol.valueClass.copy F tables symbol path) := by
  have hinit : (Symbol.init none symbol []).exceptions ≠ [] := by
    rw [Symbol.init,if_pos h]
    exact List.cons_ne_nil _ _
  rcases hpath with rfl | rfl
  · exact copyThrows_some hinit
  · rw [ValueClass.copy_serialize rfl (restores_symbol symbol)]
    exact copyThrows_some hinit

theorem dbPointer_id_valid (hT : T.Lawful) {p : DbPointer}
    (h : p.Reachable T.libbson T.oidIsValid) : T.oidIsValid p.id.bytes = true := by
  cases h with
  | init h hok =>
    rename_i intern ref id eg
    unfold DbPointer.init at h hok
    by_cases hnul : (0 : UInt8) ∈ ref
    · simp [hnul] at hok
    · by_cases hid : T.oidIsValid id = true
      · simp only [hnul,hid,if_false,not_true_eq_false] at h
        cases h
        rw [take_of_valid hT hid,CString.bytes_ofBytes_of_notMem _ (hT.nul id hid)]
        exact hid
      · simp [hnul,hid] at hok
  | decode hvalid h =>
    simp only [leafValue,Zval.bson.injEq,BsonObject.dbPointer.injEq] at h
    rw [← h.2]
    exact hT.oidToString _

/-- A reference without a NUL goes through the initialisation with its identifier. -/
theorem dbPointer_init_valid (hT : T.Lawful) {ref : Bytes} {id : CString}
    (hid : T.oidIsValid id.bytes = true) :
    DbPointer.init T.oidIsValid none ref id.bytes [] =
      if (0 : UInt8) ∈ ref then
        ⟨false,none,throwException .invalidArgument "Ref cannot contain null bytes" [] []⟩
      else ⟨true,some ⟨ref,id⟩,[]⟩ := by
  simp [DbPointer.init,hid,take_of_valid hT hid]

theorem dbPointer_copy_magicSerialize (hT : T.Lawful) {p : DbPointer}
    (h : p.Reachable T.libbson T.oidIsValid) :
    (DbPointer.valueClass T).copy F tables p .magicSerialize =
      some ⟨true,some ⟨cstr p.ref,p.id⟩,[]⟩ := by
  rw [ValueClass.copy_magicSerialize rfl]
  show some (DbPointer.init T.oidIsValid none (cstr p.ref) p.id.bytes []) = _
  rw [dbPointer_init_valid hT (dbPointer_id_valid hT h),if_neg (zero_notMem_cstr p.ref)]

theorem dbPointer_idBuffer (hT : T.Lawful) {p : DbPointer}
    (h : p.Reachable T.libbson T.oidIsValid) : p.idBuffer = p.id.bytes := by
  rw [DbPointer.idBuffer,← hT.length _ (dbPointer_id_valid hT h),List.take_left]

theorem dbPointer_copyThrows (hT : T.Lawful) {p : DbPointer}
    (h : p.Reachable T.libbson T.oidIsValid) (hnul : (0 : UInt8) ∈ p.ref) {path : CopyPath}
    (hpath : path = .clone ∨ path = .serialize) :
    CopyThrows ((DbPointer.valueClass T).copy F tables p path) := by
  have hinit : (DbPointer.init T.oidIsValid none p.ref p.id.bytes []).exceptions ≠ [] := by
    rw [dbPointer_init_valid hT (dbPointer_id_valid hT h),if_pos hnul]
    exact List.cons_ne_nil _ _
  rcases hpath with rfl | rfl
  · show CopyThrows (some (DbPointer.init T.oidIsValid none p.ref p.idBuffer []))
    rw [dbPointer_idBuffer hT h]
    exact copyThrows_some hinit
  · rw [ValueClass.copy_serialize rfl (restores_dbPointer p)]
    exact copyThrows_some hinit

theorem dbPointer_copied_iff (hT : T.Lawful) {p : DbPointer}
    (h : p.Reachable T.libbson T.oidIsValid) (path : CopyPath) :
    CopiedAs p ((DbPointer.valueClass T).copy F tables p path) ↔
      path ≠ .setState ∧ (0 : UInt8) ∉ p.ref := by
  have hid := dbPointer_id_valid hT h
  have hinit : CopiedAs p (some (DbPointer.init T.oidIsValid none p.ref p.id.bytes [])) ↔
      (0 : UInt8) ∉ p.ref := by
    rw [dbPointer_init_valid hT hid]
    split_ifs with hnul
    · exact iff_of_false (ValueClass.not_copied_of_exceptions (List.cons_ne_nil _ _))
        (not_not_intro hnul)
    · exact iff_of_true (copiedAs_some.mpr rfl) hnul
  cases path with
  | clone =>
    show CopiedAs p (some (DbPointer.init T.oidIsValid none p.ref p.idBuffer [])) ↔ _
    rw [dbPointer_idBuffer hT h]
    simpa using hinit
  | serialize =>
    rw [ValueClass.copy_serialize rfl (restores_dbPointer p)]
    show CopiedAs p (some (DbPointer.init T.oidIsValid none p.ref p.id.bytes [])) ↔ _
    simpa using hinit
  | magicSerialize =>
    rw [dbPointer_copy_magicSerialize hT h,copiedAs_some]
    have hcstr := cstr_eq_self_iff p.ref
    rcases p with ⟨ref,id⟩
    simpa using hcstr
  | setState =>
    rw [ValueClass.copy_setState rfl]
    show CopiedAs p none ↔ _
    simpa using not_copiedAs_none p

/-- Which copies of these values are the values themselves: all of an ObjectId; the clone of a
Decimal128, and those through digits that libbson reads back; those of a Symbol or a DBPointer
without a NUL, but for `__set_state`, which they do not have. With a NUL, `__unserialize` makes a
shorter value of them and throws nothing, where `clone` and `unserialize` throw. -/
theorem text_copied_iff (T : TextLibbson) (hT : T.Lawful) (F : SerialFormat)
    (tables : BsonObject → Option Props) :
    (∀ oid, ObjectId.Reachable T oid → ∀ path,
      CopiedAs oid ((ObjectId.valueClass T).copy F tables oid path)) ∧
    (∀ decimal path, CopiedAs decimal ((Decimal128.valueClass T).copy F tables decimal path) ↔
      path = .clone ∨
        T.decimal128FromString (T.decimal128ToString decimal) = (true,decimal)) ∧
    (∀ symbol path, CopiedAs symbol (Symbol.valueClass.copy F tables symbol path) ↔
      path ≠ .setState ∧ (0 : UInt8) ∉ symbol) ∧
    (∀ symbol, CopiedAs (cstr symbol)
        (Symbol.valueClass.copy F tables symbol .magicSerialize) ∧
      ((0 : UInt8) ∈ symbol → ∀ path, path = .clone ∨ path = .serialize →
        CopyThrows (Symbol.valueClass.copy F tables symbol path))) ∧
    ∀ p : DbPointer, p.Reachable T.libbson T.oidIsValid →
      (∀ path, CopiedAs p ((DbPointer.valueClass T).copy F tables p path) ↔
        path ≠ .setState ∧ (0 : UInt8) ∉ p.ref) ∧
      CopiedAs ⟨cstr p.ref,p.id⟩ ((DbPointer.valueClass T).copy F tables p .magicSerialize) ∧
      ((0 : UInt8) ∈ p.ref → ∀ path, path = .clone ∨ path = .serialize →
        CopyThrows ((DbPointer.valueClass T).copy F tables p path)) := by
  refine ⟨fun oid h path => objectId_copied hT h path,decimal128_copied_iff,symbol_copied_iff,
    fun symbol => ⟨?_,fun hnul path => symbol_copyThrows hnul⟩,
    fun p h => ⟨dbPointer_copied_iff hT h,?_,fun hnul path => dbPointer_copyThrows hT h hnul⟩⟩
  · rw [symbol_copy_magicSerialize,copiedAs_some]
  · rw [dbPointer_copy_magicSerialize hT h,copiedAs_some]

end Copies

/-- Identifiers are 24 hexadecimal digits, and there is no decimal number but NaN. -/
def TextLibbson.hexadecimal : TextLibbson where
  libbson := .ascii
  oidIsValid s := s.length = 24 && s.all fun b =>
    48 ≤ b && b ≤ 57 || 65 ≤ b && b ≤ 70 || 97 ≤ b && b ≤ 102
  decimal128FromString s := (s = CString.lit "NaN",(0x7c00000000000000,0))
  decimal128ToString _ := CString.lit "NaN"

theorem hexPair_valid (b : UInt8) : ∀ c ∈ hexPair b,
    (48 ≤ c && c ≤ 57 || 65 ≤ c && c ≤ 70 || 97 ≤ c && c ≤ 102) = true := by
  have hdigit : ∀ n : Fin 16, (48 ≤ hexDigit (UInt8.ofNat n) && hexDigit (UInt8.ofNat n) ≤ 57 ||
      65 ≤ hexDigit (UInt8.ofNat n) && hexDigit (UInt8.ofNat n) ≤ 70 ||
      97 ≤ hexDigit (UInt8.ofNat n) && hexDigit (UInt8.ofNat n) ≤ 102) = true := by decide
  have hb := b.toNat_lt
  have hhigh := hdigit ⟨b.toNat / 16,by omega⟩
  have hlow := hdigit ⟨b.toNat % 16,by omega⟩
  have hdiv : UInt8.ofNat (b.toNat / 16) = b / 16 := by
    apply UInt8.toNat_inj.mp
    simp
    omega
  have hmod : UInt8.ofNat (b.toNat % 16) = b % 16 := by
    apply UInt8.toNat_inj.mp
    simp
    omega
  rw [hdiv] at hhigh
  rw [hmod] at hlow
  simp only [hexPair,List.forall_mem_cons]
  exact ⟨hhigh,hlow,fun c hc => absurd hc List.not_mem_nil⟩

theorem TextLibbson.hexadecimal_lawful : TextLibbson.hexadecimal.Lawful where
  oid := Libbson.ascii_lawful.oid
  oidToString o := by
    have hnul : (0 : UInt8) ∉ o.toList.flatMap hexPair := fun h => by
      obtain ⟨b,-,hb⟩ := List.mem_flatMap.mp h
      exact (hexPair_spec b).1 hb
    have hbytes : (Libbson.ascii.oidToString o).bytes = o.toList.flatMap hexPair :=
      CString.bytes_ofBytes_of_notMem _ hnul
    have hlength : (o.toList.flatMap hexPair).length = 24 := by
      simp [List.length_flatMap,hexPair]
    have hall : ∀ c ∈ o.toList.flatMap hexPair,
        (48 ≤ c && c ≤ 57 || 65 ≤ c && c ≤ 70 || 97 ≤ c && c ≤ 102) = true := fun c hc => by
      obtain ⟨b,-,hb⟩ := List.mem_flatMap.mp hc
      exact hexPair_valid b c hb
    show (decide ((Libbson.ascii.oidToString o).bytes.length = 24) &&
      (Libbson.ascii.oidToString o).bytes.all _) = true
    rw [hbytes,hlength]
    exact Bool.and_eq_true_iff.mpr ⟨rfl,List.all_eq_true.mpr hall⟩
  length s h := by
    have hs := (Bool.and_eq_true_iff.mp h).1
    simpa using hs
  nul s h hz := by
    have hs := (Bool.and_eq_true_iff.mp h).2
    have hzero := List.all_eq_true.mp hs 0 hz
    revert hzero
    decide

/-- A symbol with a NUL: its clone throws, its `__unserialize` is cut. -/
theorem text_copied_iff_nul :
    CopyThrows (Symbol.valueClass.copy .scalars (fun _ => none) [97,0,98] .clone) ∧
    CopiedAs [97] (Symbol.valueClass.copy .scalars (fun _ => none) [97,0,98] .magicSerialize) := by
  obtain ⟨-,-,-,hsymbol,-⟩ := text_copied_iff .hexadecimal
    TextLibbson.hexadecimal_lawful .scalars fun _ => none
  obtain ⟨hcut,hthrows⟩ := hsymbol [97,0,98]
  exact ⟨hthrows (by decide) .clone (.inl rfl),hcut⟩

end Phongo
