import Mathlib.Data.List.Induction
import Mathlib.Data.List.Infix
import Mathlib.Data.List.Sort
import Mathlib.Tactic.Common
import Phongo.Value.Comparison
import Phongo.Value.Object

/-! `Regex.c`: the flags of regular expressions. The initialisation sorts them; the decoder takes
them as they come. -/
namespace Phongo
open OrderedTable

/-- What a `char` counts as; it is signed on some platforms. -/
def charValue (signed : Bool) (b : UInt8) : ℤ := if signed then b.toInt8.toInt else b.toNat

/-- `php_phongo_regex_compare_flags` does not put the second before the first. -/
def FlagLe (signed : Bool) (f₁ f₂ : UInt8) : Prop := charValue signed f₁ ≤ charValue signed f₂

instance (signed : Bool) : DecidableRel (FlagLe signed) := fun _ _ =>
  inferInstanceAs (Decidable (_ ≤ _))

def Alphabetical (signed : Bool) (flags : CString) : Prop := flags.bytes.Pairwise (FlagLe signed)

instance (signed : Bool) (flags : CString) : Decidable (Alphabetical signed flags) :=
  inferInstanceAs (Decidable (List.Pairwise _ _))

/-- `qsort` by `php_phongo_regex_compare_flags` -/
def sortFlags (signed : Bool) (flags : CString) : CString :=
  CString.ofBytes (flags.bytes.insertionSort (FlagLe signed))

namespace Regex

def className : Bytes := ascii "MongoDB\\BSON\\Regex"

section
variable (signed : Bool)

/-- `php_phongo_regex_init`. A pattern that is accepted stays where the flags are not. -/
def init (intern : Option Regex) (pattern : Bytes) (flags : Option Bytes) (eg : Pending) :
    Initialisation Regex :=
  if (0 : UInt8) ∈ pattern then
    ⟨false,intern,throwException .invalidArgument "Pattern cannot contain null bytes" [] eg⟩
  else
    let pattern := CString.ofBytes pattern
    match flags with
    | some flags =>
      if (0 : UInt8) ∈ flags then
        ⟨false,intern.map fun r => { r with pattern },
          throwException .invalidArgument "Flags cannot contain null bytes" [] eg⟩
      else ⟨true,some ⟨pattern,sortFlags signed (CString.ofBytes flags)⟩,eg⟩
    | none => ⟨true,some ⟨pattern,CString.lit ""⟩,eg⟩

/-- `php_phongo_regex_init_from_hash` -/
def initFromHash (intern : Option Regex) (props : Props) (eg : Pending) : Initialisation Regex :=
  match props.findStr "pattern", props.findStr "flags" with
  | some (.string pattern), some (.string flags) => init signed intern pattern (some flags) eg
  | _, _ => ⟨false,intern,throwException .invalidArgument
      "%s initialization requires \"pattern\" and \"flags\" string fields" [.bytes className] eg⟩

/-- `php_phongo_regex_get_properties_hash`, and the array that `serialize` writes -/
def getProperties (r : Regex) : Props :=
  [property "pattern" (.string r.pattern.bytes),property "flags" (.string r.flags.bytes)]

/-- `php_phongo_regex_clone_object` -/
def cloneObject (r : Regex) (eg : Pending) : Initialisation Regex :=
  init signed none r.pattern.bytes (some r.flags.bytes) eg

/-- `php_phongo_bson_new_regex_from_regex_and_options` -/
def ofPatternAndOptions (pattern options : CString) : Regex := ⟨pattern,options⟩

def valueClass : ValueClass Regex where
  name := className
  initFromHash := initFromHash signed
  getProperties r := pure r.getProperties
  magicSerialized r := pure r.getProperties
  serialized r := pure r.getProperties
  cloneObject r eg := some (r.cloneObject signed eg)
  hasSetState := true

end

end Regex

/-- What a program does with Regex objects, which it knows by their numbers. The methods that
initialise an object are called on a new one, or again on one that exists. -/
inductive RegexOp
  | construct (target : Option ℕ) (pattern : Bytes) (flags : Option Bytes)
  | setState (props : Props)
  | unserialize (target : Option ℕ) (serialized : Bytes)
  | magicUnserialize (target : Option ℕ) (props : Props)
  | clone (source : ℕ)
  | decode (pattern options : CString)

namespace RegexOp
variable (signed : Bool) (L : Libbson) (F : SerialFormat) (tables : BsonObject → Option Props)

/-- The objects after an initialisation: a new object is kept where nothing was thrown. -/
def store (objects : List Regex) : Option ℕ → Initialisation Regex → List Regex
  | none, r => if r.exceptions = [] then objects ++ r.handle.toList else objects
  | some i, r => objects.modify i fun old => r.handle.getD old

/-- The objects after a step; an object that does not exist takes none. -/
def step (objects : List Regex) : RegexOp → List Regex
  | construct target pattern flags =>
    store objects target (Regex.init signed (target.bind (objects[·]?)) pattern flags [])
  | setState props => store objects none (Regex.initFromHash signed none props [])
  | unserialize target serialized =>
    match (Regex.valueClass signed).unserializeMethod F tables (target.bind (objects[·]?))
        serialized [] with
    | some r => store objects target r
    | none => objects
  | magicUnserialize target props =>
    store objects target (Regex.initFromHash signed (target.bind (objects[·]?)) props [])
  | clone source =>
    match objects[source]? with
    | some r => store objects none (r.cloneObject signed [])
    | none => objects
  | decode pattern options =>
    if L.textValid (.regex pattern options) then
      objects ++ [Regex.ofPatternAndOptions pattern options]
    else objects

def run (ops : List RegexOp) : List Regex := ops.foldl (step signed L F tables) []

end RegexOp

section Sorting
variable {signed : Bool} {flags : CString}

instance : Std.Total (FlagLe signed) := ⟨fun _ _ => Int.le_total _ _⟩
instance : IsTrans UInt8 (FlagLe signed) := ⟨fun _ _ _ => Int.le_trans⟩

theorem bytes_sortFlags :
    (sortFlags signed flags).bytes = flags.bytes.insertionSort (FlagLe signed) := by
  refine CString.bytes_ofBytes_of_notMem _ fun hz => flags.zero_notMem ?_
  exact (List.mem_insertionSort _).mp hz

theorem alphabetical_sortFlags : Alphabetical signed (sortFlags signed flags) := by
  unfold Alphabetical
  rw [bytes_sortFlags]
  exact List.pairwise_insertionSort _ _

theorem sortFlags_eq_self_iff : sortFlags signed flags = flags ↔ Alphabetical signed flags := by
  constructor
  · intro h
    rw [← h]
    exact alphabetical_sortFlags
  · intro h
    apply CString.ext
    rw [bytes_sortFlags]
    exact List.Pairwise.insertionSort_eq h

end Sorting

namespace Regex
variable {signed : Bool} {F : SerialFormat} {tables : BsonObject → Option Props} {r : Regex}

/-- The copies of a regular expression are made and compare equal to it. -/
def Survives (signed : Bool) (F : SerialFormat) (tables : BsonObject → Option Props)
    (r : Regex) : Prop :=
  ∀ path, ValueClass.Copied (fun r' => r'.compareObjects r = .eq)
    ((valueClass signed).copy F tables r path)

theorem init_bytes (intern : Option Regex) (pattern flags : CString) (eg : Pending) :
    init signed intern pattern.bytes (some flags.bytes) eg =
      ⟨true,some ⟨pattern,sortFlags signed flags⟩,eg⟩ := by
  unfold init
  rw [if_neg pattern.zero_notMem]
  dsimp only
  rw [if_neg flags.zero_notMem,CString.ofBytes_bytes,CString.ofBytes_bytes]

theorem initFromHash_getProperties (intern : Option Regex) (eg : Pending) :
    initFromHash signed intern r.getProperties eg =
      ⟨true,some ⟨r.pattern,sortFlags signed r.flags⟩,eg⟩ :=
  init_bytes intern r.pattern r.flags eg

theorem restores_getProperties : Restores F (.array none r.getProperties) :=
  restores_pair F trivial trivial (by decide) (by decide) (by decide)

theorem copy_eq (path : CopyPath) : (valueClass signed).copy F tables r path =
    some ⟨true,some ⟨r.pattern,sortFlags signed r.flags⟩,[]⟩ := by
  cases path with
  | clone => exact congrArg some (init_bytes none r.pattern r.flags [])
  | serialize =>
    rw [ValueClass.copy_serialize rfl restores_getProperties]
    exact congrArg some (initFromHash_getProperties none [])
  | magicSerialize => exact congrArg some (initFromHash_getProperties none [])
  | setState => exact congrArg some (initFromHash_getProperties none [])

theorem survives_iff : Survives signed F tables r ↔ Alphabetical signed r.flags := by
  have hcompare : (Regex.mk r.pattern (sortFlags signed r.flags)).compareObjects r = .eq ↔
      Alphabetical signed r.flags := by
    have hzero : _ ↔ _ := zeroIffEqual_regex ⟨r.pattern,sortFlags signed r.flags⟩ r
    rw [hzero,← sortFlags_eq_self_iff]
    rcases r with ⟨pattern,flags⟩
    rw [Regex.mk.injEq]
    exact and_iff_right rfl
  simp only [Survives,copy_eq,ValueClass.copied_some,hcompare]
  exact ⟨fun h => h .clone,fun h _ => h⟩

theorem alphabetical_init {intern : Option Regex} {pattern : Bytes} {flags : Option Bytes}
    {eg : Pending} (h : ∀ r ∈ intern, Alphabetical signed r.flags) :
    ∀ r ∈ (init signed intern pattern flags eg).handle, Alphabetical signed r.flags := by
  unfold init
  by_cases hpattern : (0 : UInt8) ∈ pattern
  · rw [if_pos hpattern]
    exact h
  · rw [if_neg hpattern]
    cases flags with
    | none =>
      rintro r ⟨⟩
      exact List.Pairwise.nil
    | some flags =>
      dsimp only
      by_cases hflags : (0 : UInt8) ∈ flags
      · rw [if_pos hflags]
        intro r hr
        obtain ⟨old,hold,rfl⟩ := Option.map_eq_some_iff.mp hr
        exact h old hold
      · rw [if_neg hflags]
        rintro r ⟨⟩
        exact alphabetical_sortFlags

theorem alphabetical_initFromHash {intern : Option Regex} {props : Props} {eg : Pending}
    (h : ∀ r ∈ intern, Alphabetical signed r.flags) :
    ∀ r ∈ (initFromHash signed intern props eg).handle, Alphabetical signed r.flags := by
  unfold initFromHash
  split
  · exact alphabetical_init h
  · exact h

end Regex

namespace RegexOp
variable {signed : Bool} {L : Libbson} {F : SerialFormat} {tables : BsonObject → Option Props}

def AllAlphabetical (signed : Bool) (objects : List Regex) : Prop :=
  ∀ r ∈ objects, Alphabetical signed r.flags

def DecodesAlphabetical (signed : Bool) (L : Libbson) : RegexOp → Prop
  | decode pattern options => L.textValid (.regex pattern options) = true →
      Alphabetical signed options
  | _ => True

theorem AllAlphabetical.target {objects : List Regex} (h : AllAlphabetical signed objects)
    (target : Option ℕ) : ∀ r ∈ target.bind (objects[·]?), Alphabetical signed r.flags := by
  intro r hr
  obtain ⟨i,-,hi⟩ := Option.bind_eq_some_iff.mp hr
  exact h r (List.mem_of_getElem? hi)

theorem AllAlphabetical.store {objects : List Regex} (h : AllAlphabetical signed objects)
    {target : Option ℕ} {r : Initialisation Regex}
    (hr : ∀ r' ∈ r.handle, Alphabetical signed r'.flags) :
    AllAlphabetical signed (store objects target r) := by
  intro r' hmem
  cases target with
  | none =>
    simp only [RegexOp.store] at hmem
    by_cases hthrown : r.exceptions = []
    · rw [if_pos hthrown] at hmem
      rcases List.mem_append.mp hmem with hold | hnew
      · exact h r' hold
      · exact hr r' (Option.mem_toList.mp hnew)
    · rw [if_neg hthrown] at hmem
      exact h r' hmem
  | some i =>
    obtain ⟨j,hj⟩ := List.getElem?_of_mem hmem
    simp only [RegexOp.store,List.getElem?_modify] at hj
    obtain ⟨old,hold,hnew⟩ := Option.map_eq_some_iff.mp hj
    have hprev := h old (List.mem_of_getElem? hold)
    by_cases hij : i = j
    · rw [if_pos hij] at hnew
      cases hhandle : r.handle with
      | none => simpa [← hnew,hhandle] using hprev
      | some new => simpa [← hnew,hhandle] using hr new hhandle
    · rw [if_neg hij] at hnew
      exact hnew ▸ hprev

theorem alphabetical_none : ∀ r ∈ (none : Option Regex), Alphabetical signed r.flags :=
  fun r hr => by cases hr

theorem AllAlphabetical.step {objects : List Regex} (h : AllAlphabetical signed objects)
    {op : RegexOp} (hop : op.DecodesAlphabetical signed L) :
    AllAlphabetical signed (step signed L F tables objects op) := by
  cases op with
  | construct target pattern flags => exact h.store (Regex.alphabetical_init (h.target target))
  | setState props =>
    simp only [RegexOp.step]
    exact h.store (Regex.alphabetical_initFromHash alphabetical_none)
  | unserialize target serialized =>
    simp only [RegexOp.step,ValueClass.unserializeMethod]
    cases Phongo.unserialize F serialized with
    | none => exact h.store (h.target target)
    | some z =>
      dsimp only
      cases ValueClass.tableOf tables z with
      | none => exact h
      | some props => exact h.store (Regex.alphabetical_initFromHash (h.target target))
  | magicUnserialize target props =>
    exact h.store (Regex.alphabetical_initFromHash (h.target target))
  | clone source =>
    simp only [RegexOp.step]
    cases objects[source]? with
    | none => exact h
    | some r => exact h.store (Regex.alphabetical_init alphabetical_none)
  | decode pattern options =>
    simp only [RegexOp.step]
    by_cases hvalid : L.textValid (.regex pattern options) = true
    · rw [if_pos hvalid]
      intro r hr
      rcases List.mem_append.mp hr with hold | hnew
      · exact h r hold
      · rw [List.mem_singleton.mp hnew]
        exact hop hvalid
    · rw [if_neg hvalid]
      exact h

theorem allAlphabetical_run {ops : List RegexOp}
    (h : ∀ op ∈ ops, op.DecodesAlphabetical signed L) :
    AllAlphabetical signed (run signed L F tables ops) := by
  induction ops using List.reverseRecOn with
  | nil => exact fun r hr => absurd hr List.not_mem_nil
  | append_singleton ops op ih =>
    have hprev := ih fun op' hop' => h op' (List.mem_append_left _ hop')
    unfold run at hprev ⊢
    rw [List.foldl_append]
    exact hprev.step (h op (List.mem_append_right _ (List.mem_singleton_self op)))

/-- Whatever a program does, all its objects have sorted flags and equal copies at all times
exactly where it decodes sorted options only. -/
theorem regex_canonical_iff (signed : Bool) (L : Libbson) (F : SerialFormat)
    (tables : BsonObject → Option Props) (ops : List RegexOp) :
    (∀ ops' ∈ ops.inits, ∀ r ∈ run signed L F tables ops',
      Alphabetical signed r.flags ∧ r.Survives signed F tables) ↔
    ∀ pattern options, .decode pattern options ∈ ops →
      L.textValid (.regex pattern options) = true → Alphabetical signed options := by
  constructor
  · intro h pattern options hmem hvalid
    obtain ⟨pre,post,rfl⟩ := List.append_of_mem hmem
    have hinit : pre ++ [.decode pattern options] ∈
        (pre ++ .decode pattern options::post).inits := by
      rw [List.mem_inits]
      exact ⟨post,by simp⟩
    refine (h _ hinit (Regex.ofPatternAndOptions pattern options) ?_).1
    have hstep : run signed L F tables (pre ++ [.decode pattern options]) =
        run signed L F tables pre ++ [Regex.ofPatternAndOptions pattern options] := by
      unfold run
      rw [List.foldl_append]
      exact if_pos hvalid
    rw [hstep]
    exact List.mem_append_right _ (List.mem_singleton_self _)
  · intro h ops' hinits r hr
    have hpre := (List.mem_inits _ _).mp hinits
    have hall : ∀ op ∈ ops', op.DecodesAlphabetical signed L := by
      intro op hop
      cases op with
      | decode pattern options => exact h pattern options (hpre.subset hop)
      | _ => trivial
    have hflags : Alphabetical signed r.flags := allAlphabetical_run hall r hr
    exact ⟨hflags,Regex.survives_iff.mpr hflags⟩

/-- A decoded regular expression with unsorted flags differs from its clone. -/
theorem not_regex_canonical : ¬ ∀ ops : List RegexOp,
    ∀ r ∈ run true .ascii .scalars (fun _ => none) ops,
      Alphabetical true r.flags ∧ r.Survives true .scalars fun _ => none := by
  intro h
  have hreg := h [.decode (.lit "a") (.lit "xi")] ⟨.lit "a",.lit "xi"⟩ (by decide +kernel)
  exact absurd hreg.1 (by decide)

end RegexOp
end Phongo
