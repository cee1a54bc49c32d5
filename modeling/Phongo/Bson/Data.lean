import Mathlib.Tactic.Common
import Phongo.Bson.Encode
import Phongo.Bson.Materialise

/-! Plain data: trees of PHP values whose encoding runs no userland code and cannot fail.
They are encoded to one BSON value each, whatever the state of the encoder. -/
namespace Phongo
open OrderedTable

def intValue (n : Int64) : BsonValue :=
  if n > 2147483647 ∨ n < -2147483648 then .int64 n else .int32 n.toInt32

def keyName (key : Key) : CString := CString.ofBytes key.toStr

theorem bytes_keyName {key : Key} (h : (0 : UInt8) ∉ key.toStr) :
    (keyName key).bytes = key.toStr := CString.bytes_ofBytes_of_notMem _ h

mutual

def toBson (L : Libbson) : Zval → BsonValue
  | .bool b => .bool b
  | .long n => intValue n
  | .double bits => .double bits
  | .string s => .utf8 s
  | .array _ els => if keysAreIndices 0 els then .array (toFields L els) else .document (toFields L els)
  | .bson obj => bsonObjectValue L obj
  | .object _ _ properties _ => .document (toFields L properties)
  | _ => .null

def toFields (L : Libbson) : List (Key × Zval) → List (CString × BsonValue)
  | [] => []
  | (key,z)::rest => (keyName key,toBson L z)::toFields L rest

end

/-- The scope of a Javascript object can be decoded without an exception. -/
def ScopeDecodes (L : Libbson) (U : Userland) : BsonObject → Prop
  | .javascript _ (some scope) =>
    (bsonToZvalEx L U (.read scope true) BsonState.init []).exceptions = []
  | _ => True

mutual

def IsData (L : Libbson) (U : Userland) : Zval → Prop
  | .null | .bool _ | .long _ | .double _ => True
  | .string s => L.utf8Validate s true = true
  | .array ht els => ht = none ∧ AreData L U els
  | .bson obj => ScopeDecodes L U obj
  | .object ce ht properties _ => ce = .stdClass ∧ ht = none ∧ AreData L U properties
  | _ => False

def AreData (L : Libbson) (U : Userland) : List (Key × Zval) → Prop
  | [] => True
  | (key,z)::rest => (0 : UInt8) ∉ key.toStr ∧ IsData L U z ∧ AreData L U rest

end

/-- Two encoders that differ at most in the field path. -/
def Encoder.Same (e e' : Encoder) : Prop := ∃ fp, e' = { e with fieldPath := fp }

namespace Encoder.Same
variable {e e' e'' : Encoder}

theorem refl (e : Encoder) : e.Same e := ⟨e.fieldPath,rfl⟩

theorem trans (h : e.Same e') (h' : e'.Same e'') : e.Same e'' := by
  obtain ⟨fp,rfl⟩ := h
  obtain ⟨fp',rfl⟩ := h'
  exact ⟨fp',rfl⟩

theorem exceptions (h : e.Same e') : e'.exceptions = e.exceptions := by
  obtain ⟨fp,rfl⟩ := h; rfl

theorem writeItem (e : Encoder) (key : CString) : e.Same (e.writeItem key) := ⟨_,rfl⟩

theorem enter (e : Encoder) (type : ItemType) : e.Same (e.enter type) := ⟨_,rfl⟩

theorem leave (h : e.Same e') : e.Same e'.leave := by
  obtain ⟨fp,rfl⟩ := h
  exact ⟨_,rfl⟩

end Encoder.Same

/-- An appending step that yields `d` and changes the field path only. -/
def Append.Yields (f : Append) (e : Encoder) (d : Doc) : Prop := (f e).1 = d ∧ e.Same (f e).2

theorem appendElement_yields (key : CString) (v : BsonValue) (e : Encoder) :
    (appendElement key v).Yields e [(key,v)] := ⟨rfl,Encoder.Same.refl e⟩

theorem appendInt_yields (key : CString) (n : Int64) (e : Encoder) :
    (appendInt key n).Yields e [(key,intValue n)] := by
  unfold appendInt intValue
  split <;> exact appendElement_yields key _ e

theorem guarded_yields {body : Append} {d : Doc} {e : Encoder} (type : ItemType)
    (h : body.Yields (e.enter type) d) : (guarded none type body).Yields e d :=
  ⟨h.1,((Encoder.Same.enter e type).trans h.2).leave⟩

theorem appendArray_yields {body : Append} {d : Doc} {e : Encoder} (key : CString)
    (h : body.Yields e d) : (appendArray key body).Yields e [(key,.array d)] :=
  ⟨by simp [appendArray,h.1],h.2⟩

theorem appendDocument_yields {body : Append} {d : Doc} {e : Encoder} (key : CString)
    (h : body.Yields e d) : (appendDocument key body).Yields e [(key,.document d)] :=
  ⟨by simp [appendDocument,h.1],h.2⟩

/-- A loop over data that ran to its end. -/
def Loop.Yields (f : Loop) (e : Encoder) (d : Doc) : Prop :=
  (f false e).fields = d ∧ (f false e).addId = false ∧ (f false e).aborted = false ∧
    e.Same (f false e).encoder

theorem closeFields_yields {L : Libbson} {loop : Loop} {d : Doc} {e : Encoder}
    (h : loop.Yields e d) : (closeFields L loop .none).Yields e d := by
  obtain ⟨hd,hid,hab,hs⟩ := h
  have hr : closeFields L loop .none e = ((loop false e).fields,(loop false e).encoder) := by
    simp [closeFields,finishFields,Flags.none,hid,hab]
  exact ⟨by rw [hr]; exact hd,by rw [hr]; exact hs⟩

theorem inspectKey_append {key : Key} (h : (0 : UInt8) ∉ key.toStr) (fromProperties : Bool) :
    inspectKey fromProperties false key = .append (keyName key) := by
  have hb : ∀ (s : Bytes) (hs : (0 : UInt8) ∉ s), (⟨s,hs⟩ : CString) = CString.ofBytes s :=
    fun s hs => CString.ext (CString.bytes_ofBytes_of_notMem s hs).symm
  cases key with
  | int n => simp [inspectKey,hb,keyName,Key.toStr]
  | str s =>
    have hs : (0 : UInt8) ∉ s := h
    have hhead : s.head? ≠ some 0 := fun hh => hs (List.mem_of_head? hh)
    simp [inspectKey,hs,hhead,hb,keyName,Key.toStr]

theorem Encoder.hashOfBson_eq {L : Libbson} {U : Userland} {obj : BsonObject} {e : Encoder}
    (h : ScopeDecodes L U obj) (he : e.exceptions = []) : hashOfBson L U obj e = e := by
  obtain ⟨fp,tables,eg,n,out⟩ := e
  have heg : eg = [] := he
  subst heg
  match obj, h with
  | .javascript _ (some scope), h =>
    have hs : (bsonToZvalEx L U (.read scope true) BsonState.init []).exceptions = [] := h
    simp only [hashOfBson,hs]
  | .javascript _ none, _ => rfl
  | .objectId _, _ | .utcDateTime _, _ | .binary _ _, _ | .decimal128 _ _, _ | .int64 _, _
  | .regex _ _, _ | .timestamp _ _, _ | .maxKey, _ | .minKey, _ | .dbPointer _ _, _
  | .symbol _, _ | .undefined, _ => rfl

/-- Plain data is appended as its BSON value. -/
theorem append_data (L : Libbson) (U : Userland) :
    (∀ z, IsData L U z → ∀ key e, e.exceptions = [] →
      (appendValue L U key z).Yields e [(key,toBson L z)]) ∧
    (∀ els, AreData L U els → ∀ fromProperties e, e.exceptions = [] →
      (appendAll L U fromProperties false els).Yields e (toFields L els)) := by
  refine Zval.induction ?leaf ?array ?object ?reference ?nil ?cons
  case leaf =>
    intro z hl hz key e he
    cases z with
    | array | object | reference => exact hl.elim
    | undef | cursorId | resource => exact hz.elim
    | null => exact appendElement_yields key _ e
    | bool b => exact appendElement_yields key _ e
    | double bits => exact appendElement_yields key _ e
    | long n => exact appendInt_yields key n e
    | string s =>
      have hs : L.utf8Validate s true = true := hz
      rw [appendValue,toBson]
      exact ⟨by simp [appendString,hs],by simpa [appendString,hs] using Encoder.Same.refl e⟩
    | bson obj =>
      have hh := Encoder.hashOfBson_eq hz he
      have hg := guarded_yields .document
        (appendElement_yields key (bsonObjectValue L obj) (e.enter .document))
      simpa only [appendValue,toBson,Append.Yields,hh] using hg
  case array =>
    intro ht els ih hz key e he
    obtain ⟨rfl,hels⟩ := hz
    rw [appendValue,toBson]
    by_cases hk : keysAreIndices 0 els = true
    · simp only [hk,if_true]
      exact guarded_yields .array (appendArray_yields key (closeFields_yields (ih hels false _ he)))
    · simp only [hk]
      exact guarded_yields .document
        (appendDocument_yields key (closeFields_yields (ih hels false _ he)))
  case object =>
    intro ce ht properties returned ihp _ hz key e he
    obtain ⟨rfl,rfl,hprops⟩ := hz
    rw [appendValue,toBson]
    exact guarded_yields .document
      (appendDocument_yields key (closeFields_yields (ihp hprops true _ he)))
  case reference =>
    intro z _ hz
    exact hz.elim
  case nil =>
    intro _ fromProperties e he
    exact ⟨rfl,rfl,rfl,Encoder.Same.refl e⟩
  case cons =>
    intro key z rest ihz ihr hz fromProperties e he
    obtain ⟨hkey,hdata,hrest⟩ := hz
    have hs := Encoder.Same.writeItem e (keyName key)
    obtain ⟨hd,hsame⟩ := ihz hdata (keyName key) (e.writeItem (keyName key))
      (hs.exceptions.trans he)
    have hsame' := hs.trans hsame
    obtain ⟨hd',hid',hab',hsame''⟩ := ihr hrest fromProperties
      (appendValue L U (keyName key) z (e.writeItem (keyName key))).2
      (hsame'.exceptions.trans he)
    rw [appendAll,toFields]
    simp only [Loop.Yields,inspectKey_append hkey,Bool.false_and]
    exact ⟨by rw [hd,hd']; rfl,hid',hab',hsame'.trans hsame''⟩

theorem toInt64_toInt32 {n : Int64} (h : ¬ (n > 2147483647 ∨ n < -2147483648)) :
    n.toInt32.toInt64 = n := by
  have hup : n.toInt ≤ 2147483647 := by
    have hn : ¬ (2147483647 : Int64) < n := fun hlt => h (Or.inl hlt)
    rw [Int64.lt_iff_toInt_lt] at hn
    simpa using hn
  have hlo : -2147483648 ≤ n.toInt := by
    have hn : ¬ n < (-2147483648 : Int64) := fun hlt => h (Or.inr hlt)
    rw [Int64.lt_iff_toInt_lt] at hn
    simpa using hn
  rw [← Int64.toInt_inj,Int32.toInt_toInt64,Int64.toInt_toInt32]
  exact Int.bmod_eq_of_le (by norm_num; omega) (by norm_num; omega)

theorem materialise_intValue (L : Libbson) (U : Userland) (map : Typemap) (path : List CString)
    (eg : Pending) (n : Int64) : materialise L U map path eg (intValue n) = (.long n,eg) := by
  unfold intValue
  split
  · rfl
  · rename_i h
    simp [materialise,leafValue,toInt64_toInt32 h]

theorem intValue_valid (L : Libbson) (n : Int64) :
    L.textValid (intValue n) = true ∧ accepts L (intValue n) = true := by
  unfold intValue
  split <;> exact ⟨rfl,rfl⟩

/-- Keys that count up from `n` are those the decoder gives the elements of an array. -/
theorem indexedFrom_of_keysAreIndices {n : ℕ} {els : List (Key × Zval)}
    (h : keysAreIndices n els = true) : indexedFrom n (els.map Prod.snd) = els := by
  induction els generalizing n with
  | nil => rfl
  | cons e els ih =>
    obtain ⟨key,z⟩ := e
    cases key with
    | str s => simp [keysAreIndices] at h
    | int i =>
      simp only [keysAreIndices,Bool.and_eq_true,decide_eq_true_eq] at h
      simp [indexedFrom,ih h.2,h.1]

theorem keysAreIndices_map (f : Zval → Zval) (n : ℕ) (els : List (Key × Zval)) :
    keysAreIndices n (els.map fun e => (e.1,f e.2)) = keysAreIndices n els := by
  induction els generalizing n with
  | nil => rfl
  | cons e els ih =>
    obtain ⟨key,z⟩ := e
    cases key <;> simp [keysAreIndices,ih]

theorem exists_int_of_keysAreIndices {n : ℕ} {els : List (Key × Zval)}
    (h : keysAreIndices n els = true) : ∀ e ∈ els, ∃ i, e.1 = .int i := by
  induction els generalizing n with
  | nil => simp
  | cons e els ih =>
    obtain ⟨key,z⟩ := e
    cases key with
    | str s => simp [keysAreIndices] at h
    | int i =>
      simp only [keysAreIndices,Bool.and_eq_true] at h
      exact List.forall_mem_cons.mpr ⟨⟨i,rfl⟩,ih h.2⟩

theorem keysAreIndices_indexedFrom (n : ℕ) (zs : List Zval) :
    keysAreIndices n (indexedFrom n zs) = true := by
  induction zs generalizing n with
  | nil => rfl
  | cons z zs ih => simp [indexedFrom,keysAreIndices,ih]

end Phongo
