import Mathlib.Tactic.Common
import Phongo.Bson.Encode

/-! What an encoding throws, said without the encoder's field path: each message is given the
chain of keys at which its value stands. The encoder, which keeps that chain on a stack it pushes
to and pops from, is shown to throw the same exceptions in the same order. -/
namespace Phongo

section
variable (L : Libbson) (U : Userland)

def recursionDetected (path : List CString) : Exception :=
  .phongo .unexpectedValue "Detected recursion for field path \"%s\"" [.path path]

def invalidText (path : List CString) (s : Bytes) : Exception :=
  .phongo .unexpectedValue "Detected invalid UTF-8 for field path \"%s\": %s"
    [.path path,.bytes (cstr s)]

def unsupportedType (path : List CString) (number : ℤ) (z : Zval) : Exception :=
  .phongo .unexpectedValue "Detected unsupported PHP type for field path \"%s\": %d (%s)"
    [.path path,.num number,.bytes z.classOrTypeName]

/-- Exceptions about a class or a name, which carry no path. -/
def unusableReturn (ce : ClassEntry) (returned : Zval) : Exception :=
  .phongo .unexpectedValue "Expected %s::%s() to return an array or stdClass, %s given"
    [.bytes ce.name,.bytes (ascii "bsonSerialize"),.bytes returned.classOrTypeName]

def unexpectedType (name : Bytes) : Exception :=
  .phongo .unexpectedValue "Unexpected %s instance: %s" [.bytes typeClassName,.bytes name]

def unusableRoot (name : Bytes) : Exception :=
  .phongo .unexpectedValue "%s instance %s cannot be serialized as a root element"
    [.bytes typeClassName,.bytes name]

def nulInKey (key : Key) : Exception :=
  .phongo .unexpectedValue "BSON keys cannot contain null bytes. Unexpected null byte after \"%s\"."
    [.bytes (cstr key.toStr)]

/-- Pending after a table at `path` was met; `inner` is what its elements throw. -/
def diagnoseTable (tables : List ℕ) (path : List CString) (eg : Pending) (ht : Option ℕ)
    (inner : List ℕ → Pending) : Pending :=
  if ∀ t ∈ ht, t ∉ tables then inner (ht.toList ++ tables) else recursionDetected path::eg

/-- Pending after `bsonSerialize()` was called and, where it returned a table, `inner`. With an
exception pending there is no call. -/
def diagnoseCall (ce : ClassEntry) (returned : Zval) (eg : Pending) (inner : Pending) :
    Pending :=
  if eg = [] then
    match returned with
    | .undef thrown => thrownBy thrown
    | z => if z.isArrayOrStdClass then inner else [unusableReturn ce z]
  else eg

mutual

/-- Pending after the value at `path` was appended. -/
def diagnose (tables : List ℕ) (path : List CString) (eg : Pending) : Zval → Pending
  | .undef thrown => unsupportedType path 0 (.undef thrown)::eg
  | .resource => unsupportedType path 9 .resource::eg
  | .string s => if L.utf8Validate s true then eg else invalidText path s::eg
  | .array ht els =>
    diagnoseTable tables path eg ht fun tables => diagnoseAll tables path false false eg els
  | .bson obj => (hashOfBson L U obj ⟨FieldPath.alloc,[],eg,0,none⟩).exceptions
  | .object ce ht properties returned =>
    diagnoseTable tables path eg ht fun tables =>
      if ce.isSerializable then
        diagnoseCall ce returned eg (diagnoseBody tables path eg returned)
      else if ce.isType then unexpectedType ce.name::eg
      else diagnoseAll tables path true false eg properties
  | .reference z => diagnose tables path eg z
  | .null | .bool _ | .long _ | .double _ | .cursorId _ => eg

/-- Pending after the elements of the value at `path` were appended. -/
def diagnoseBody (tables : List ℕ) (path : List CString) (eg : Pending) : Zval → Pending
  | .array _ els => diagnoseAll tables path false false eg els
  | .object ce _ properties returned =>
    if ce.isSerializable then
      diagnoseCall ce returned eg (diagnoseReturned tables path ce.isPersistable eg returned)
    else if ce.isType then unusableRoot ce.name::eg
    else diagnoseAll tables path true false eg properties
  | .bson obj => unusableRoot obj.className::eg
  | .undef _ | .null | .bool _ | .long _ | .double _ | .string _ | .cursorId _ | .reference _
  | .resource => eg

/-- Pending after what a root's `bsonSerialize()` returned was appended. -/
def diagnoseReturned (tables : List ℕ) (path : List CString) (skipOdmField : Bool)
    (eg : Pending) : Zval → Pending
  | .array _ els => diagnoseAll tables path false skipOdmField eg els
  | .object _ _ properties _ => diagnoseAll tables path false skipOdmField eg properties
  | .undef _ | .null | .bool _ | .long _ | .double _ | .string _ | .bson _ | .cursorId _
  | .reference _ | .resource => eg

def diagnoseAll (tables : List ℕ) (path : List CString) (fromProperties skipOdmField : Bool)
    (eg : Pending) : List (Key × Zval) → Pending
  | [] => eg
  | (key,z)::rest =>
    match inspectKey fromProperties skipOdmField key with
    | .skip => diagnoseAll tables path fromProperties skipOdmField eg rest
    | .abort => nulInKey key::eg
    | .append name =>
      diagnoseAll tables path fromProperties skipOdmField
        (diagnose tables (path ++ [name]) eg z) rest

end

end

section
variable {L : Libbson} {U : Userland} {path : List CString} {tables : List ℕ} {eg : Pending}

/-- The encoder stands at `path` below the given tables, with `eg` pending. -/
structure Encoder.At (e : Encoder) (path : List CString) (tables : List ℕ) (eg : Pending) :
    Prop where
  holds : e.fieldPath.Holds path
  protectedTables : e.protectedTables = tables
  exceptions : e.exceptions = eg

namespace Encoder.At
variable {e : Encoder}

theorem writeItem (h : e.At path tables eg) (key : CString) : (e.writeItem key).At path tables eg :=
  { h with holds := h.holds.writeItem key }

theorem enter (h : e.At path tables eg) (key : CString) (type : ItemType) :
    ((e.writeItem key).enter type).At (path ++ [key]) tables eg :=
  { h with holds := h.holds.push key type }

theorem leave {key : CString} (h : e.At (path ++ [key]) tables eg) : e.leave.At path tables eg :=
  { h with holds := h.holds.leave }

theorem throw (h : e.At path tables eg) (format : String) (args : List Arg) :
    (e.throw format args).At path tables (.phongo .unexpectedValue format args::eg) :=
  { h with exceptions := congrArg _ h.exceptions }

theorem asString (h : e.At path tables eg) (key : CString) :
    (e.writeItem key).fieldPath.asString = path ++ [key] := h.holds.asString_writeItem key

end Encoder.At

/-- From `path`, below any tables and with anything pending, the step leaves the encoder there
with `throws` pending. -/
def Append.Throws (f : Append) (throws : List ℕ → List CString → Pending → Pending) : Prop :=
  ∀ e tables path eg, e.At path tables eg → (f e).2.At path tables (throws tables path eg)

/-- The same for a step taken once its key is written. -/
def Append.ThrowsAt (f : Append) (key : CString)
    (throws : List ℕ → List CString → Pending → Pending) : Prop :=
  ∀ (e : Encoder) tables path eg, e.At path tables eg →
    (f (e.writeItem key)).2.At path tables (throws tables (path ++ [key]) eg)

def Loop.Throws (f : Loop) (throws : List ℕ → List CString → Pending → Pending) : Prop :=
  ∀ addId e tables path eg, e.At path tables eg →
    (f addId e).encoder.At path tables (throws tables path eg)

variable {throws : List ℕ → List CString → Pending → Pending}

theorem appendElement_throws (key : CString) (v : BsonValue) :
    (appendElement key v).Throws fun _ _ eg => eg := fun _ _ _ _ h => h

theorem appendInt_throws (key : CString) (n : Int64) :
    (appendInt key n).Throws fun _ _ eg => eg := by
  unfold appendInt
  split <;> exact appendElement_throws key _

theorem Append.Throws.at {f : Append} (h : f.Throws fun _ _ eg => eg) (key : CString) :
    f.ThrowsAt key fun _ _ eg => eg := fun _ _ _ _ he => h _ _ _ _ (he.writeItem key)

theorem appendString_throws (key : CString) (s : Bytes) :
    (appendString L key s).ThrowsAt key fun tables path eg =>
      diagnose L U tables path eg (.string s) := by
  intro e tables path eg h
  simp only [appendString,diagnose]
  split
  · exact h.writeItem key
  · rw [h.asString]
    exact (h.writeItem key).throw _ _

theorem throwUnsupportedType_throws (key : CString) (number : ℤ) (z : Zval) :
    (throwUnsupportedType number z).ThrowsAt key fun _ path eg =>
      unsupportedType path number z::eg := by
  intro e tables path eg h
  rw [throwUnsupportedType,h.asString]
  exact (h.writeItem key).throw _ _

theorem appendDocument_throws {f : Append} (key : CString) (h : f.Throws throws) :
    (appendDocument key f).Throws throws := h

theorem appendArray_throws {f : Append} (key : CString) (h : f.Throws throws) :
    (appendArray key f).Throws throws := h

/-- A table that is open already is reported where it is met again. -/
theorem guarded_throws {f : Append} (ht : Option ℕ) (key : CString) (type : ItemType)
    (h : f.Throws throws) :
    (guarded ht type f).ThrowsAt key fun tables path eg =>
      diagnoseTable tables path eg ht fun tables => throws tables path eg := by
  intro e tables path eg he
  have htables := he.protectedTables
  cases ht with
  | none => exact (h _ _ _ _ (he.enter key type)).leave
  | some t =>
    by_cases hm : t ∈ tables
    · have hm' : t ∈ (e.writeItem key).protectedTables := htables ▸ hm
      simp only [guarded,Encoder.protectionBegin,hm',if_true,diagnoseTable,Option.mem_some_iff,
        forall_eq',hm,not_true_eq_false,if_false]
      rw [he.asString]
      exact (he.writeItem key).throw _ _
    · have hm' : t ∉ (e.writeItem key).protectedTables := fun hn => hm (htables ▸ hn)
      simp only [guarded,Encoder.protectionBegin,hm',if_false,diagnoseTable,Option.mem_some_iff,
        forall_eq',hm,not_false_eq_true,if_true]
      have hp : ({ e with protectedTables := t::e.protectedTables } : Encoder).At path (t::tables)
          eg := { he with protectedTables := congrArg _ htables }
      have hbody := (h _ _ _ _ (hp.enter key type)).leave
      refine { hbody with protectedTables := ?_ }
      exact (congrArg (fun tables => tables.erase t) hbody.protectedTables).trans
        (List.erase_cons_head t tables)

theorem closeFields_throws {f : Loop} (flags : Flags) (h : f.Throws throws) :
    (closeFields L f flags).Throws throws := by
  intro e tables path eg he
  have hloop := h flags.addId e tables path eg he
  simp only [closeFields,finishFields]
  split
  · exact hloop
  · split <;> split <;> exact ⟨hloop.holds,hloop.protectedTables,hloop.exceptions⟩

/-- The engine calls `bsonSerialize()` exactly if nothing is pending. -/
theorem callBsonSerialize_throws (returned : Zval) {e : Encoder} (h : e.At path tables eg) :
    (eg ≠ [] → callBsonSerialize returned e = (.undef [],e)) ∧
    (eg = [] → returned.isUndef = false → callBsonSerialize returned e = (returned,e)) ∧
    (eg = [] → ∀ thrown, returned = .undef thrown →
      (callBsonSerialize returned e).1 = .undef thrown ∧
        (callBsonSerialize returned e).2.At path tables (thrownBy thrown)) := by
  have he := h.exceptions
  refine ⟨fun hne => ?_,fun hnil hu => ?_,fun hnil thrown hr => ?_⟩
  · simp [callBsonSerialize,he,hne]
  · cases returned with
    | undef thrown => simp [Zval.isUndef] at hu
    | _ => simp [callBsonSerialize,he,hnil]
  · subst hr
    simp only [callBsonSerialize,he,hnil,if_true]
    exact ⟨trivial,{ h with exceptions := rfl }⟩

/-- What follows a call of `bsonSerialize()`, in an object's element and in a root. -/
theorem afterCall_throws {f : Zval → Append} (ce : ClassEntry) (returned : Zval)
    (h : (f returned).Throws throws) :
    Append.Throws (fun e =>
      let (returned,e) := callBsonSerialize returned e
      if returned.isUndef then ([],e)
      else if !returned.isArrayOrStdClass then ([],throwExpectedArray ce returned e)
      else f returned e) fun tables path eg =>
        diagnoseCall ce returned eg (throws tables path eg) := by
  intro e tables path eg he
  obtain ⟨hpending,hcalled,hthrew⟩ := callBsonSerialize_throws returned he
  by_cases hnil : eg = []
  · cases hu : returned.isUndef with
    | true =>
      obtain ⟨thrown,rfl⟩ : ∃ thrown, returned = .undef thrown := by
        cases returned <;> first | exact ⟨_,rfl⟩ | simp [Zval.isUndef] at hu
      obtain ⟨hfst,hat⟩ := hthrew hnil thrown rfl
      simp only [hfst,Zval.isUndef,if_true,diagnoseCall,hnil]
      exact hat
    | false =>
      simp only [hcalled hnil hu,hu,Bool.false_eq_true,if_false]
      have hcall : diagnoseCall ce returned eg (throws tables path eg) =
          if returned.isArrayOrStdClass then throws tables path eg
          else [unusableReturn ce returned] := by
        cases returned with
        | undef thrown => simp [Zval.isUndef] at hu
        | _ => simp [diagnoseCall,hnil]
      rw [hcall]
      cases returned.isArrayOrStdClass with
      | true =>
        simp only [Bool.not_true,Bool.false_eq_true,if_false,if_true]
        exact h e tables path eg he
      | false =>
        simp only [Bool.not_false,if_true,Bool.false_eq_true,if_false]
        have hthrow := he.throw "Expected %s::%s() to return an array or stdClass, %s given"
          [.bytes ce.name,.bytes (ascii "bsonSerialize"),.bytes returned.classOrTypeName]
        rw [hnil] at hthrow
        exact hthrow
  · simp only [hpending hnil,Zval.isUndef,if_true,diagnoseCall,hnil,if_false]
    exact he

theorem withOdm_throws {f : Append} (ce : ClassEntry) (h : f.Throws throws) :
    Append.Throws (fun e =>
      let r := f e
      if ce.isPersistable then (odmField ce::r.1,r.2) else r) throws := by
  intro e tables path eg he
  have hf := h e tables path eg he
  cases ce.isPersistable <;> exact hf

theorem internalObject_throws {table properties : Loop} {fromTable fromProperties :
    List ℕ → List CString → Pending → Pending} (ce : ClassEntry) (returned : Zval) (flags : Flags)
    (ht : table.Throws fromTable) (hp : properties.Throws fromProperties) :
    (internalObject L ce returned table properties flags).Throws fun tables path eg =>
      if ce.isSerializable then diagnoseCall ce returned eg (fromTable tables path eg)
      else if ce.isType then unusableRoot ce.name::eg
      else fromProperties tables path eg := by
  intro e tables path eg he
  unfold internalObject
  cases ce.isSerializable with
  | true =>
    have hbody := withOdm_throws ce (closeFields_throws (L:=L) flags ht)
    exact afterCall_throws (f:=fun _ => _) ce returned hbody e tables path eg he
  | false =>
    cases ce.isType with
    | true => exact he.throw _ _
    | false => exact closeFields_throws flags hp e tables path eg he

theorem appendObject_throws {nested own : Append} {fromReturned fromOwn :
    List ℕ → List CString → Pending → Pending} (key : CString) (ce : ClassEntry)
    (returned : Zval) (hn : nested.Throws fromReturned)
    (ho : ce.isSerializable = false → ce.isType = false → own.Throws fromOwn) :
    (appendObject key ce returned nested own).Throws fun tables path eg =>
      if ce.isSerializable then diagnoseCall ce returned eg (fromReturned tables path eg)
      else if ce.isType then unexpectedType ce.name::eg
      else fromOwn tables path eg := by
  intro e tables path eg he
  unfold appendObject
  cases hs : ce.isSerializable with
  | true =>
    simp only [ClassEntry.isType_of_isSerializable hs,if_true]
    have hbody : Append.Throws (fun e => if ce.isPersistable || !returned.isBsonArray then
        appendDocument key (fun e =>
          let r := nested e
          if ce.isPersistable then (odmField ce::r.1,r.2) else r) e
        else appendArray key nested e) fromReturned := by
      split
      · exact appendDocument_throws key (withOdm_throws ce hn)
      · exact appendArray_throws key hn
    exact afterCall_throws (f:=fun z e => if ce.isPersistable || !z.isBsonArray then
        appendDocument key (fun e =>
          let r := nested e
          if ce.isPersistable then (odmField ce::r.1,r.2) else r) e
        else appendArray key nested e) ce returned hbody e tables path eg he
  | false =>
    cases ht : ce.isType with
    | true => exact he.throw _ _
    | false => exact ho hs ht e tables path eg he

variable (L U)

/-- `php_phongo_bson_append` throws what is diagnosed at the value's key, and the functions that
append its elements throw what is diagnosed at its own place. -/
def Zval.Diagnosed (z : Zval) : Prop :=
  (∀ key, (appendValue L U key z).ThrowsAt key fun tables path eg =>
      diagnose L U tables path eg z) ∧
  (∀ flags, (internal L U z flags).Throws fun tables path eg =>
      diagnoseBody L U tables path eg z) ∧
  (∀ skip, (appendTable L U false skip z).Throws fun tables path eg =>
      diagnoseReturned L U tables path skip eg z)

def Zval.AllDiagnosed (els : List (Key × Zval)) : Prop :=
  ∀ fromProperties skip, (appendAll L U fromProperties skip els).Throws fun tables path eg =>
    diagnoseAll L U tables path fromProperties skip eg els

variable {L U}

theorem hashOfBson_exceptions (obj : BsonObject) {e : Encoder} (h : e.At path tables eg) :
    (hashOfBson L U obj e).At path tables (diagnose L U tables path eg (.bson obj)) := by
  have he := h.exceptions
  refine ⟨?_,?_,?_⟩
  · unfold hashOfBson
    split <;> exact h.holds
  · unfold hashOfBson
    split <;> exact h.protectedTables
  · rw [diagnose]
    unfold hashOfBson
    split <;> simp [he]

theorem bson_diagnosed (obj : BsonObject) : (Zval.bson obj).Diagnosed L U := by
  refine ⟨fun key e tables path eg h => ?_,fun flags e tables path eg h => ?_,
    fun skip addId e tables path eg h => h⟩
  · have hg := guarded_throws none key .document
      (appendElement_throws key (bsonObjectValue L obj)) _ _ _ _
      (hashOfBson_exceptions (L:=L) (U:=U) obj h)
    have hw : hashOfBson L U obj (e.writeItem key) = (hashOfBson L U obj e).writeItem key := by
      unfold hashOfBson
      split <;> rfl
    rw [appendValue]
    simp only [hw]
    exact hg
  · exact h.throw _ _

theorem leaf_diagnosed {z : Zval} (hl : z.IsLeaf) : z.Diagnosed L U := by
  have nothing : ∀ _ : Flags, appendNothing.Throws fun _ _ eg => eg := fun _ _ _ _ _ h => h
  have noTable : ∀ _ : Bool, Loop.Throws (fun addId e => ⟨[],addId,false,e⟩) fun _ _ eg => eg :=
    fun _ _ _ _ _ _ h => h
  cases z with
  | array | object | reference => exact hl.elim
  | undef thrown =>
    exact ⟨fun key => throwUnsupportedType_throws key 0 (.undef thrown),nothing,noTable⟩
  | resource => exact ⟨fun key => throwUnsupportedType_throws key 9 .resource,nothing,noTable⟩
  | null | bool | double =>
    exact ⟨fun key => (appendElement_throws key _).at key,nothing,noTable⟩
  | long n => exact ⟨fun key => (appendInt_throws key n).at key,nothing,noTable⟩
  | string s => exact ⟨fun key => appendString_throws key s,nothing,noTable⟩
  | bson obj => exact bson_diagnosed obj
  | cursorId id =>
    refine ⟨fun key => guarded_throws none key .document (appendElement_throws key (.int64 id)),
      fun flags => ?_,noTable⟩
    rw [internal]
    refine closeFields_throws flags fun addId e tables path eg h => ?_
    exact (appendInt_throws (CString.lit "id") id).at (CString.lit "id") e tables path eg h

theorem array_diagnosed (ht : Option ℕ) {els : List (Key × Zval)}
    (ih : Zval.AllDiagnosed L U els) : (Zval.array ht els).Diagnosed L U := by
  refine ⟨fun key => ?_,fun flags => closeFields_throws flags (ih false false),
    fun skip => ih false skip⟩
  have hbody := closeFields_throws (L:=L) .none (ih false false)
  rw [appendValue]
  split
  · exact guarded_throws ht key .array (appendArray_throws key hbody)
  · exact guarded_throws ht key .document (appendDocument_throws key hbody)

theorem object_diagnosed (ce : ClassEntry) (ht : Option ℕ) {properties : List (Key × Zval)}
    {returned : Zval} (ihp : Zval.AllDiagnosed L U properties) (ihr : returned.Diagnosed L U) :
    (Zval.object ce ht properties returned).Diagnosed L U := by
  obtain ⟨-,hinternal,htable⟩ := ihr
  have hbody : ∀ flags, (internal L U (.object ce ht properties returned) flags).Throws
      fun tables path eg => diagnoseBody L U tables path eg (.object ce ht properties returned) :=
    fun flags => internalObject_throws ce returned flags (htable ce.isPersistable) (ihp true false)
  refine ⟨fun key => guarded_throws ht key .document
    (appendObject_throws key ce returned (hinternal .none) fun hser htype => ?_),hbody,
    fun skip => ihp false skip⟩
  intro e tables path eg he
  have hown := hbody .none e tables path eg he
  simpa [internal,diagnoseBody,hser,htype] using hown

theorem cons_diagnosed {key : Key} {z : Zval} {rest : List (Key × Zval)}
    (ihz : z.Diagnosed L U) (ihr : Zval.AllDiagnosed L U rest) :
    Zval.AllDiagnosed L U ((key,z)::rest) := by
  intro fromProperties skip addId e tables path eg h
  simp only [appendAll,diagnoseAll]
  cases hk : inspectKey fromProperties skip key with
  | skip => exact ihr fromProperties skip addId e tables path eg h
  | abort => exact h.throw _ _
  | append name =>
    have hvalue := ihz.1 name e tables path eg h
    exact ihr fromProperties skip (addId && key ≠ .str idName.bytes) _ tables path _ hvalue

/-- The encoder throws what is diagnosed, and finds its way back from every value. -/
theorem append_diagnosed (L : Libbson) (U : Userland) :
    (∀ z, Zval.Diagnosed L U z) ∧ (∀ els, Zval.AllDiagnosed L U els) := by
  refine Zval.induction ?leaf ?array ?object ?reference ?nil ?cons
  case leaf => exact fun z hl => leaf_diagnosed hl
  case array => exact fun ht els ih => array_diagnosed ht ih
  case object => exact fun ce ht _ _ ihp ihr => object_diagnosed ce ht ihp ihr
  case reference =>
    intro z ih
    exact ⟨fun key => ih.1 key,fun _ _ _ _ _ h => h,fun _ _ _ _ _ _ h => h⟩
  case nil => exact fun _ _ _ _ _ _ _ h => h
  case cons => exact fun key z rest ihz ihr => cons_diagnosed ihz ihr

end

/-- What `php_phongo_zval_to_bson` leaves pending. -/
theorem exceptions_zvalToBson (L : Libbson) (U : Userland) (data : Zval) (flags : Flags)
    (eg : Pending) :
    (zvalToBson L U data flags eg).2.2 = diagnoseBody L U [] [] eg data :=
  (((append_diagnosed L U).1 data).2.1 flags (Encoder.init eg) [] [] eg
    ⟨FieldPath.alloc_holds,rfl,rfl⟩).exceptions

end Phongo
