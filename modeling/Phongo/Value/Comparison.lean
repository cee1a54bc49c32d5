import Mathlib.Order.Compare
import Mathlib.Tactic.Common
import Phongo.Bson.Materialise
import Phongo.Concern.Object

/-! The comparison handlers of Binary, Timestamp, Regex and DBPointer objects. Only the sign of
what they return is kept. -/
namespace Phongo

/-- `php_phongo_binary_t` -/
structure Binary where
  data : Bytes
  type : UInt8
  deriving DecidableEq

/-- `php_phongo_timestamp_t` -/
structure Timestamp where
  timestamp : UInt32
  increment : UInt32
  deriving DecidableEq

/-- `php_phongo_regex_t` -/
structure Regex where
  pattern : CString
  flags : CString
  deriving DecidableEq

/-- `php_phongo_dbpointer_t` -/
structure DbPointer where
  ref : Bytes
  id : CString
  deriving DecidableEq

/-- Bytes are compared as unsigned numbers, and a prefix comes before what it starts. -/
def strcmp (s t : CString) : Ordering := compare s.bytes t.bytes

def zendBinaryStrcmp (s t : Bytes) : Ordering :=
  let n := min s.length t.length
  (compare (s.take n) (t.take n)).then (compare s.length t.length)

/-- `php_phongo_binary_compare_objects` -/
def Binary.compareObjects (b b' : Binary) : Ordering :=
  if b.data.length ≠ b'.data.length then
    if b.data.length < b'.data.length then .lt else .gt
  else if b.type ≠ b'.type then
    if b.type < b'.type then .lt else .gt
  else zendBinaryStrcmp b.data b'.data

/-- `php_phongo_timestamp_compare_objects` -/
def Timestamp.compareObjects (t t' : Timestamp) : Ordering :=
  if t.timestamp ≠ t'.timestamp then
    if t.timestamp < t'.timestamp then .lt else .gt
  else if t.increment ≠ t'.increment then
    if t.increment < t'.increment then .lt else .gt
  else .eq

/-- `php_phongo_regex_compare_objects` -/
def Regex.compareObjects (r r' : Regex) : Ordering :=
  let retval := strcmp r.pattern r'.pattern
  if retval ≠ .eq then retval else strcmp r.flags r'.flags

/-- `php_phongo_dbpointer_compare_objects` -/
def DbPointer.compareObjects (p p' : DbPointer) : Ordering :=
  let retval := strcmp (CString.ofBytes p.ref) (CString.ofBytes p'.ref)
  if retval ≠ .eq then retval else strcmp p.id p'.id

/-- Reflexive, antisymmetric in sign, and transitive. -/
structure TotalPreorder {α : Type} (cmp : α → α → Ordering) : Prop where
  refl : ∀ a, cmp a a = .eq
  swap : ∀ a b, cmp a b = (cmp b a).swap
  trans : ∀ a b c, cmp a b ≠ .gt → cmp b c ≠ .gt → cmp a c ≠ .gt

def ZeroIffEqual {α : Type} (cmp : α → α → Ordering) (a b : α) : Prop := cmp a b = .eq ↔ a = b

theorem totalPreorder_of_transCmp {α : Type} {cmp : α → α → Ordering} [Std.TransCmp cmp] :
    TotalPreorder cmp where
  refl _ := Std.ReflCmp.compare_self
  swap _ _ := Std.OrientedCmp.eq_swap
  trans a b c hab hbc := by
    have h : (cmp a c).isLE = true := Std.TransCmp.isLE_trans (Ordering.isLE_iff_ne_gt.mpr hab)
      (Ordering.isLE_iff_ne_gt.mpr hbc)
    exact Ordering.isLE_iff_ne_gt.mp h

section Lexicographic
variable {α β : Type}

/-- The two tests of a field that precede the next field. -/
theorem ite_ne_lt_eq_then [LT β] [DecidableEq β] [∀ x y : β, Decidable (x < y)]
    (hirr : ∀ x : β, ¬ x < x) (x y : β) (o : Ordering) :
    (if x ≠ y then if x < y then .lt else .gt else o) = (compareOfLessAndEq x y).then o := by
  unfold compareOfLessAndEq
  by_cases heq : x = y
  · subst heq
    rw [if_neg (not_not_intro rfl),if_neg (hirr x),if_pos rfl]
    rfl
  · rw [if_pos heq]
    by_cases hlt : x < y
    · rw [if_pos hlt,if_pos hlt]
      rfl
    · rw [if_neg hlt,if_neg hlt,if_neg heq]
      rfl

theorem ite_ne_eq_then (o o' : Ordering) : (if o ≠ .eq then o else o') = o.then o' := by
  cases o <;> rfl

theorem then_congr {o o' o'' : Ordering} (h : o = .eq → o' = o'') : o.then o' = o.then o'' := by
  cases o with
  | eq => exact h rfl
  | _ => rfl

theorem zendBinaryStrcmp_of_length_eq {s t : Bytes} (h : s.length = t.length) :
    zendBinaryStrcmp s t = compare s t := by
  have hlen : compare s.length t.length = .eq := Nat.compare_eq_eq.mpr h
  unfold zendBinaryStrcmp
  dsimp only
  rw [hlen,h,Nat.min_self,List.take_length,← h,List.take_length,Ordering.then_eq]

end Lexicographic

section Keys

theorem Binary.compareObjects_eq : Binary.compareObjects =
    compareLex (compareOn fun b => b.data.length)
      (compareLex (compareOn Binary.type) (compareOn Binary.data)) := by
  funext b b'
  unfold Binary.compareObjects
  rw [ite_ne_lt_eq_then (fun _ => Nat.lt_irrefl _),ite_ne_lt_eq_then (fun _ => UInt8.lt_irrefl _)]
  refine then_congr fun hlen => ?_
  have heq : b.data.length = b'.data.length := Nat.compare_eq_eq.mp hlen
  rw [zendBinaryStrcmp_of_length_eq heq]
  rfl

theorem Timestamp.compareObjects_eq : Timestamp.compareObjects =
    compareLex (compareOn Timestamp.timestamp) (compareOn Timestamp.increment) := by
  funext t t'
  unfold Timestamp.compareObjects
  rw [ite_ne_lt_eq_then (fun _ => UInt32.lt_irrefl _),
    ite_ne_lt_eq_then (fun _ => UInt32.lt_irrefl _),Ordering.then_eq]
  rfl

theorem Regex.compareObjects_eq : Regex.compareObjects =
    compareLex (compareOn fun r => r.pattern.bytes) (compareOn fun r => r.flags.bytes) := by
  funext r r'
  exact ite_ne_eq_then _ _

/-- By the reference up to its first NUL and the identifier. -/
theorem DbPointer.compareObjects_eq : DbPointer.compareObjects =
    compareLex (compareOn fun p => cstr p.ref) (compareOn fun p => p.id.bytes) := by
  funext p p'
  exact ite_ne_eq_then _ _


theorem totalPreorder_binary : TotalPreorder Binary.compareObjects := by
  rw [Binary.compareObjects_eq]
  exact totalPreorder_of_transCmp

theorem totalPreorder_timestamp : TotalPreorder Timestamp.compareObjects := by
  rw [Timestamp.compareObjects_eq]
  exact totalPreorder_of_transCmp

theorem totalPreorder_regex : TotalPreorder Regex.compareObjects := by
  rw [Regex.compareObjects_eq]
  exact totalPreorder_of_transCmp

theorem totalPreorder_dbPointer : TotalPreorder DbPointer.compareObjects := by
  rw [DbPointer.compareObjects_eq]
  exact totalPreorder_of_transCmp

theorem zeroIffEqual_binary (b b' : Binary) : ZeroIffEqual Binary.compareObjects b b' := by
  rw [ZeroIffEqual,Binary.compareObjects_eq]
  simp only [compareLex,compareOn,Ordering.then_eq_eq,Std.LawfulEqCmp.compare_eq_iff_eq]
  rcases b with ⟨data,type⟩
  rcases b' with ⟨data',type'⟩
  rw [Binary.mk.injEq]
  constructor
  · rintro ⟨-,htype,hdata⟩
    exact ⟨hdata,htype⟩
  · rintro ⟨rfl,rfl⟩
    exact ⟨rfl,rfl,rfl⟩

theorem zeroIffEqual_timestamp (t t' : Timestamp) : ZeroIffEqual Timestamp.compareObjects t t' := by
  rw [ZeroIffEqual,Timestamp.compareObjects_eq]
  simp only [compareLex,compareOn,Ordering.then_eq_eq,Std.LawfulEqCmp.compare_eq_iff_eq]
  rcases t with ⟨timestamp,increment⟩
  rcases t' with ⟨timestamp',increment'⟩
  rw [Timestamp.mk.injEq]

theorem zeroIffEqual_regex (r r' : Regex) : ZeroIffEqual Regex.compareObjects r r' := by
  rw [ZeroIffEqual,Regex.compareObjects_eq]
  simp only [compareLex,compareOn,Ordering.then_eq_eq,Std.LawfulEqCmp.compare_eq_iff_eq]
  rcases r with ⟨pattern,flags⟩
  rcases r' with ⟨pattern',flags'⟩
  rw [Regex.mk.injEq]
  exact and_congr CString.ext_iff.symm CString.ext_iff.symm

theorem DbPointer.compareObjects_eq_eq (p p' : DbPointer) :
    p.compareObjects p' = .eq ↔ cstr p.ref = cstr p'.ref ∧ p.id = p'.id := by
  rw [DbPointer.compareObjects_eq]
  simp only [compareLex,compareOn,Ordering.then_eq_eq,Std.LawfulEqCmp.compare_eq_iff_eq]
  exact and_congr_right fun _ => CString.ext_iff.symm

/-- Two strings that differ, but are the same up to the first NUL of each. -/
def DifferBehindNul (s t : Bytes) : Prop :=
  s ≠ t ∧ ∃ first, (0 : UInt8) ∉ first ∧ (s = first ∨ ∃ rest, s = first ++ 0::rest) ∧
    (t = first ∨ ∃ rest, t = first ++ 0::rest)

theorem cstr_eq_iff {s first : Bytes} (h : (0 : UInt8) ∉ first) :
    cstr s = first ↔ s = first ∨ ∃ rest, s = first ++ 0::rest := by
  constructor
  · rintro rfl
    have hsplit : cstr s ++ s.dropWhile (· ≠ 0) = s := List.takeWhile_append_dropWhile
    cases hrest : s.dropWhile (· ≠ 0) with
    | nil => exact Or.inl (by rw [hrest,List.append_nil] at hsplit; exact hsplit.symm)
    | cons b rest =>
      have hb := List.head?_dropWhile_not (· ≠ (0 : UInt8)) s
      rw [hrest] at hb
      have hzero : b = 0 := by simpa using hb
      rw [hrest,hzero] at hsplit
      exact Or.inr ⟨rest,hsplit.symm⟩
  · have hall : ∀ b ∈ first, decide (b ≠ (0 : UInt8)) = true := fun b hb =>
      decide_eq_true fun hz => h (hz ▸ hb)
    rintro (rfl | ⟨rest,rfl⟩)
    · exact cstr_of_notMem _ h
    · have htake : (first ++ 0::rest).takeWhile (· ≠ 0) = _ := List.takeWhile_append_of_pos hall
      rw [List.takeWhile_cons_of_neg (by decide),List.append_nil] at htake
      exact htake

theorem differBehindNul_iff {s t : Bytes} : DifferBehindNul s t ↔ s ≠ t ∧ cstr s = cstr t := by
  refine and_congr_right fun _ => ⟨?_,fun h => ?_⟩
  · rintro ⟨first,hfirst,hs,ht⟩
    rw [(cstr_eq_iff hfirst).mpr hs,(cstr_eq_iff hfirst).mpr ht]
  · have hfirst := zero_notMem_cstr s
    exact ⟨cstr s,hfirst,(cstr_eq_iff hfirst).mp rfl,(cstr_eq_iff hfirst).mp h.symm⟩

theorem zeroIffEqual_dbPointer_iff (p p' : DbPointer) :
    ZeroIffEqual DbPointer.compareObjects p p' ↔
      ¬ (p.id = p'.id ∧ DifferBehindNul p.ref p'.ref) := by
  rw [ZeroIffEqual,DbPointer.compareObjects_eq_eq,differBehindNul_iff]
  rcases p with ⟨ref,id⟩
  rcases p' with ⟨ref',id'⟩
  rw [DbPointer.mk.injEq]
  constructor
  · rintro h ⟨hid,hne,hcstr⟩
    exact hne (h.mp ⟨hcstr,hid⟩).1
  · intro h
    refine ⟨fun ⟨hcstr,hid⟩ => ⟨?_,hid⟩,?_⟩
    · by_contra hne
      exact h ⟨hid,hne,hcstr⟩
    · rintro ⟨rfl,rfl⟩
      exact ⟨rfl,rfl⟩

end Keys

section Reachable

/-- `php_phongo_dbpointer_init` -/
def DbPointer.init (oidIsValid : Bytes → Bool) (intern : Option DbPointer) (ref id : Bytes)
    (eg : Pending) : Initialisation DbPointer :=
  if (0 : UInt8) ∈ ref then
    ⟨false,intern,throwException .invalidArgument "Ref cannot contain null bytes" [] eg⟩
  else if ¬ oidIsValid id then
    ⟨false,intern,throwException .invalidArgument "Error parsing ObjectId string: %s"
      [.bytes (cstr id)] eg⟩
  else ⟨true,some ⟨ref,CString.ofBytes (id.take 24)⟩,eg⟩

/-- The DBPointers a program can hold: initialised from strings, or decoded. -/
inductive DbPointer.Reachable (L : Libbson) (oidIsValid : Bytes → Bool) : DbPointer → Prop
  | init {intern ref id eg p} (h : (init oidIsValid intern ref id eg).handle = some p)
      (hok : (init oidIsValid intern ref id eg).ok = true) : Reachable L oidIsValid p
  | decode {ns o p} (hvalid : L.textValid (.dbPointer ns o) = true)
      (h : leafValue L (.dbPointer ns o) = .bson (.dbPointer p.ref p.id)) : Reachable L oidIsValid p

/-- What is asked of the handlers, over the objects a program can hold. -/
structure LawfulHandlers (L : Libbson) (oidIsValid : Bytes → Bool) : Prop where
  binary : TotalPreorder Binary.compareObjects ∧ ∀ b b', ZeroIffEqual Binary.compareObjects b b'
  timestamp : TotalPreorder Timestamp.compareObjects ∧
    ∀ t t', ZeroIffEqual Timestamp.compareObjects t t'
  regex : TotalPreorder Regex.compareObjects ∧ ∀ r r', ZeroIffEqual Regex.compareObjects r r'
  dbPointer : TotalPreorder DbPointer.compareObjects ∧ ∀ p p', p.Reachable L oidIsValid →
    p'.Reachable L oidIsValid → ZeroIffEqual DbPointer.compareObjects p p'

/-- What is asked of the handlers for two objects of each class. -/
structure LawfulOn (b b' : Binary) (t t' : Timestamp) (r r' : Regex) (p p' : DbPointer) :
    Prop where
  binary : TotalPreorder Binary.compareObjects ∧ ZeroIffEqual Binary.compareObjects b b'
  timestamp : TotalPreorder Timestamp.compareObjects ∧ ZeroIffEqual Timestamp.compareObjects t t'
  regex : TotalPreorder Regex.compareObjects ∧ ZeroIffEqual Regex.compareObjects r r'
  dbPointer : TotalPreorder DbPointer.compareObjects ∧ ZeroIffEqual DbPointer.compareObjects p p'

/-- The handlers are total preorders, and zero for equal fields only, except for references that
differ behind a NUL. -/
theorem compareObjects_lawful (b b' : Binary) (t t' : Timestamp) (r r' : Regex)
    (p p' : DbPointer) :
    LawfulOn b b' t t' r r' p p' ↔ ¬ (p.id = p'.id ∧ DifferBehindNul p.ref p'.ref) := by
  rw [← zeroIffEqual_dbPointer_iff]
  constructor
  · exact fun h => h.dbPointer.2
  · intro h
    exact ⟨⟨totalPreorder_binary,zeroIffEqual_binary b b'⟩,
      ⟨totalPreorder_timestamp,zeroIffEqual_timestamp t t'⟩,
      ⟨totalPreorder_regex,zeroIffEqual_regex r r'⟩,totalPreorder_dbPointer,h⟩

/-- Two pointers of one identifier, decoded from references that go on behind a NUL. -/
theorem not_lawfulHandlers : ¬ LawfulHandlers .ascii fun _ => true := by
  intro h
  have hreach : ∀ b < 128, DbPointer.Reachable .ascii (fun _ => true)
      ⟨[97,0,b],Libbson.ascii.oidToString (Vector.replicate 12 0)⟩ := by
    intro b hb
    have hvalid : Libbson.ascii.textValid (.dbPointer [97,0,b] (Vector.replicate 12 0)) = true := by
      simp [Libbson.textValid,Libbson.ascii,hb]
    exact .decode hvalid rfl
  have hzero := h.dbPointer.2 _ _ (hreach 98 (by decide)) (hreach 99 (by decide))
  have heq := hzero.mp (by decide +kernel)
  exact absurd (congrArg DbPointer.ref heq) (by decide)

end Reachable

end Phongo
