import Mathlib.Tactic.Common
import Phongo.Graph.Kept
import Phongo.Graph.Lockstep
import Phongo.Graph.Walk

/-! The recursion guard of the encoder: it ends every encoding, reports cycles, and leaves no
flag behind. -/
namespace Phongo
open Walking
namespace Graph
variable {T O R α : Type}

section Soundness
variable {h : PhpHeap T O R} {L : Libbson}

/-- A value is met with its own table, inside of values that have one. -/
structure Sound (h : PhpHeap T O R) (L : Libbson) (m : Meeting T O) : Prop where
  isPlain : m.value.isPlain = false
  table : m.table = tableOf h L m.value
  around : ∀ v ∈ m.around, (tableOf h L v).isSome = true

def Meets (h : PhpHeap T O R) (L : Libbson) : StepRelation T O := fun _ _ f _ =>
  ∀ e, (∀ v ∈ e.around, (tableOf h L v).isSome = true) →
    (f e).2.around = e.around ∧ ∀ m ∈ (f e).2.met, m ∈ e.met ∨ Sound h L m

theorem meets_congruence : Congruence (Meets (O:=O) h L) where
  pure _ a := fun e _ => ⟨rfl,fun m hm => .inl hm⟩
  bind hf hg := fun e he => by
    obtain ⟨haround,hmet⟩ := hf e he
    obtain ⟨haround',hmet'⟩ := hg _ _ (by rw [haround]; exact he)
    refine ⟨haround'.trans haround,fun m hm => ?_⟩
    rcases hmet' m hm with hm | hm
    · exact hmet m hm
    · exact .inr hm
  weaken hf := hf
  onOutput f := fun _ hg e he => hg (f e.output).1 { e with output := (f e.output).2 } he
  throwAt format args _ := fun e _ => ⟨rfl,fun m hm => .inl hm⟩
  element key hf := fun e he =>
    hf { e with fieldPath := e.fieldPath.writeItemAtCurrentLevel key } he
  nested type hf := fun e he =>
    hf { e with fieldPath := (e.fieldPath.writeTypeAtCurrentLevel type).enter } he

variable [DecidableEq T] {U : Userland} {protects : Bool}

theorem meets_guards : Guards h L protects protects (Meets h L) (Meets h L) := by
  intro v type f f' hplain hf hleaf e he
  have hmet : ∀ m ∈ (GraphEncoder.meet e v (tableOf h L v)).met, m ∈ e.met ∨ Sound h L m := by
    intro m hm
    cases hran : e.ranOut with
    | true =>
      rw [met_meet_of_ranOut v _ hran] at hm
      exact .inl hm
    | false =>
      rw [met_meet v _ hran] at hm
      rcases List.mem_append.mp hm with hm | hm
      · exact .inl hm
      · rw [List.mem_singleton.mp hm]
        exact .inr ⟨hplain,rfl,he⟩
  refine guarded_cases (P:=fun r => r.2.around = e.around ∧ ∀ m ∈ r.2.met, m ∈ e.met ∨ Sound h L m)
    e (fun _ _ _ => ⟨around_meet e v _,hmet⟩) fun _ => ?_
  have hbody : ∀ e', e' = protect (flagFor protects (tableOf h L v)) v
      (GraphEncoder.meet e v (tableOf h L v)) → (nested type f e').2.around = e'.around ∧
        ∀ m ∈ (nested type f e').2.met, m ∈ e'.met ∨ Sound h L m := by
    rintro e' rfl
    cases htable : tableOf h L v with
    | none =>
      obtain ⟨fields,rfl,-⟩ := hleaf htable
      exact ⟨rfl,fun m hm => .inl hm⟩
    | some t =>
      refine meets_congruence.nested type hf _ fun v' hv' => ?_
      have hmem : v' ∈ v::e.around := by simpa [protect] using hv'
      rcases List.mem_cons.mp hmem with rfl | hmem
      · rw [htable]
        rfl
      · exact he v' hmem
  obtain ⟨haround,hmet'⟩ := hbody _ rfl
  refine ⟨?_,fun m hm => ?_⟩
  · rw [unprotect,haround]
    exact around_meet e v _
  · rcases hmet' m hm with hm | hm
    · exact hmet m hm
    · exact .inr hm

theorem append_meets (depth : ℕ) (key : CString) (v : HeapValue T O) :
    Meets h L Doc false (append h L U protects depth key v)
      (append h L U protects depth key v) := by
  induction depth generalizing key v with
  | zero => exact fun e _ => ⟨rfl,fun m hm => .inl hm⟩
  | succ n ih =>
    exact meets_congruence.element key
      (meets_congruence.appendValue meets_congruence meets_guards ih key v)

end Soundness

/-- What `php_phongo_zval_to_bson` is called on: a value of a heap, with the recursion flags that
are set and the exceptions that are pending. -/
structure Call (T O R : Type) where
  heap : PhpHeap T O R
  libbson : Libbson
  userland : Userland
  data : HeapValue T O
  flags : Flags
  recursive : List T
  pending : Pending

def IsUndecodable (h : PhpHeap T O R) (L : Libbson) : HeapValue T O → Prop
  | .plain _ | .array _ => False
  | .object o =>
    match h.objects o with
    | .bson (.javascript _ (some scope)) _ => acceptsAll L scope = false
    | .bson _ _ | .cursorId _ _ | .user _ _ _ => False

theorem tableOf_eq_none_iff {h : PhpHeap T O R} {L : Libbson} {v : HeapValue T O}
    (hv : v.isPlain = false) : tableOf h L v = none ↔ IsUndecodable h L v := by
  cases v with
  | plain p => simp [HeapValue.isPlain] at hv
  | array t => simp [tableOf,IsUndecodable]
  | object o =>
    simp only [tableOf,IsUndecodable]
    cases h.objects o with
    | cursorId | user => simp
    | bson obj table =>
      cases obj with
      | javascript code scope => cases scope <;> simp [bsonTable]
      | _ => simp [bsonTable]

namespace Call
variable [DecidableEq T] (c : Call T O R)

def run (protects : Bool) (depth : ℕ) : Doc × GraphEncoder T O :=
  zvalToBson c.heap c.libbson c.userland protects depth c.data c.flags c.recursive c.pending

/-- A run that the fuel was enough for. -/
def Ends (depth : ℕ) : Prop := (c.run true depth).2.ranOut = false

/-- A recursion is reported. -/
def Reports (depth : ℕ) : Prop :=
  Output.Detected ⟨c.pending,0,none,[]⟩ (c.run true depth).2.output

def setting (protects : Bool) : Setting T O R :=
  ⟨c.heap,c.libbson,c.userland,protects,c.recursive⟩

/-- Through the tables, the references and what `bsonSerialize()` returns, a walk from the data
comes to a value. -/
def Comes (protects : Bool) (a : Arrival (HeapValue T O)) : Prop :=
  (c.setting protects).rules.Comes [] (rootAgenda c.heap c.libbson c.data) (! c.pending.isEmpty) a

/-- Where every table is let through, an array or object comes inside itself. -/
def Cyclic : Prop := ∃ a, c.Comes false a ∧ a.value.isPlain = false ∧ a.value ∈ a.around

/-- A table comes inside itself, or has been flagged from the start. -/
def TableRecurs : Prop := ∃ a t, c.Comes false a ∧ tableOf c.heap c.libbson a.value = some t ∧
  (t ∈ c.recursive ∨ ∃ v ∈ a.around, tableOf c.heap c.libbson v = some t)

/-- The walk comes to a value, where flagged tables are not entered. -/
def Encounters (v : HeapValue T O) : Prop := ∃ a, c.Comes true a ∧ a.value = v

/-- What is asked of the guard: some depth is enough, and every encoding that ends reports a
recursion exactly for a cycle, protects no NULL, and leaves the flags and the depth of the path as
they were. -/
structure GuardsRecursion : Prop where
  terminates : ∃ depth, c.Ends depth
  detects : ∀ depth, c.Ends depth → (c.Reports depth ↔ c.Cyclic)
  protectsTables : ∀ depth, c.Ends depth → ∀ m ∈ (c.run true depth).2.met, m.table ≠ none
  restores : ∀ depth, c.Ends depth →
    (c.run true depth).2.recursive = c.recursive ∧ (c.run true depth).2.fieldPath.size = 0

/-- The encoder meets the arrays and objects that the walk comes to. -/
theorem met_iff (protects : Bool) (m : Meeting T O) :
    (∃ depth, m ∈ (c.run protects depth).2.met) ↔ ∃ a, c.Comes protects a ∧
      a.value.isPlain = false ∧ ⟨a.around,a.value,tableOf c.heap c.libbson a.value⟩ = m := by
  have hmet : ∀ depth, (c.run protects depth).2.met = meetings c.heap c.libbson
      (follow ((c.setting protects).rules.visit depth []) (rootAgenda c.heap c.libbson c.data)
        ⟨! c.pending.isEmpty,[],false⟩).arrivals := fun depth =>
    (Setting.zvalToBson_walks (c.setting protects) depth c.data c.flags c.pending).met
  constructor
  · rintro ⟨depth,hm⟩
    rw [hmet depth] at hm
    obtain ⟨a,ha,rfl⟩ := List.mem_map.mp hm
    obtain ⟨harrived,hplain⟩ := List.mem_filter.mp ha
    exact ⟨a,comes_iff.mpr ⟨depth,harrived⟩,by simpa using hplain,rfl⟩
  · rintro ⟨a,hcomes,hplain,rfl⟩
    obtain ⟨depth,harrived⟩ := comes_iff.mp hcomes
    refine ⟨depth,?_⟩
    rw [hmet depth]
    exact List.mem_map.mpr ⟨a,List.mem_filter.mpr ⟨harrived,by simp [hplain]⟩,rfl⟩

theorem cyclic_iff : c.Cyclic ↔ ∃ depth, ∃ m ∈ (c.run false depth).2.met, m.value ∈ m.around := by
  constructor
  · rintro ⟨a,hcomes,hplain,hinside⟩
    obtain ⟨depth,hm⟩ := (c.met_iff false _).mpr ⟨a,hcomes,hplain,rfl⟩
    exact ⟨depth,_,hm,hinside⟩
  · rintro ⟨depth,m,hm,hinside⟩
    obtain ⟨a,hcomes,hplain,rfl⟩ := (c.met_iff false m).mp ⟨depth,hm⟩
    exact ⟨a,hcomes,hplain,hinside⟩

theorem tableRecurs_iff : c.TableRecurs ↔
    ∃ depth, ∃ m ∈ (c.run false depth).2.met, Recurs c.heap c.libbson c.recursive m := by
  constructor
  · rintro ⟨a,t,hcomes,htable,hrecurs⟩
    have hplain : a.value.isPlain = false := by
      cases hv : a.value with
      | plain p => simp [hv,tableOf] at htable
      | array | object => rfl
    obtain ⟨depth,hm⟩ := (c.met_iff false _).mpr ⟨a,hcomes,hplain,rfl⟩
    exact ⟨depth,_,hm,t,htable,hrecurs⟩
  · rintro ⟨depth,m,hm,t,htable,hrecurs⟩
    obtain ⟨a,hcomes,-,rfl⟩ := (c.met_iff false m).mp ⟨depth,hm⟩
    exact ⟨a,t,hcomes,htable,hrecurs⟩

theorem run_lockstep (depth : ℕ) : Locked c.heap c.libbson c.recursive
    (start c.recursive c.pending) c.recursive (c.run true depth) (c.run false depth) := by
  have happend : ∀ n key v, InLockstep c.heap c.libbson c.recursive
      (append c.heap c.libbson c.userland true n key v)
      (append c.heap c.libbson c.userland false n key v) := by
    intro n
    induction n with
    | zero => exact fun key v => ⟨.runOut,.runOut,fun e flags _ _ => .ranOut rfl rfl rfl⟩
    | succ n ih =>
      exact fun key v => lockstep_congruence.element key
        (lockstep_congruence.appendValue lockstep_congruence lockstep_guards ih key v)
  exact (lockstep_congruence.internal (happend depth) c.flags c.data).locked
    (start c.recursive c.pending) c.recursive rfl rfl

theorem run_deeper (protects : Bool) {n n' : ℕ} (hle : n ≤ n') :
    c.run protects n = c.run protects n' ∨
      ((c.run protects n).2.ranOut = true ∧
        (c.run protects n).2.met <+: (c.run protects n').2.met) :=
  (deepening_congruence.internal (append_deeper hle) c.flags c.data).agrees
    (start c.recursive c.pending)

theorem run_sound (protects : Bool) (depth : ℕ) :
    ∀ m ∈ (c.run protects depth).2.met, Sound c.heap c.libbson m := by
  intro m hm
  have hmet := (meets_congruence.internal (append_meets depth) c.flags c.data
    (start c.recursive c.pending) fun _ hv => absurd hv List.not_mem_nil).2 m hm
  exact hmet.resolve_left List.not_mem_nil

variable {c}

theorem met_subset {n : ℕ} (hn : c.Ends n) (n' : ℕ) :
    (c.run true n').2.met ⊆ (c.run true n).2.met := by
  rcases Nat.le_total n' n with hle | hle
  · rcases c.run_deeper true hle with heq | ⟨-,hmet⟩
    · rw [heq]
      exact List.Subset.refl _
    · exact hmet.subset
  · rcases c.run_deeper true hle with heq | ⟨hout,-⟩
    · rw [heq]
      exact List.Subset.refl _
    · exact absurd (hn.symm.trans hout) (by decide)

theorem reports_iff_tableRecurs {n : ℕ} (hn : c.Ends n) : c.Reports n ↔ c.TableRecurs := by
  have hdetected := (c.run_lockstep n).detected_iff rfl hn
  rw [tableRecurs_iff]
  constructor
  · intro hreports
    exact ⟨n,(c.run_lockstep n).recurs_iff.mp (hdetected.mp hreports)⟩
  · rintro ⟨n',hrecurs⟩
    obtain ⟨m,hm,hrecurs⟩ := (c.run_lockstep n').recurs_iff.mpr hrecurs
    exact hdetected.mpr ⟨m,met_subset hn n' hm,hrecurs⟩

/-- The table of a value that is inside itself is inside itself. -/
theorem Cyclic.tableRecurs (hcyclic : c.Cyclic) : c.TableRecurs := by
  obtain ⟨n,m,hm,hinside⟩ := c.cyclic_iff.mp hcyclic
  have hsound := c.run_sound false n m hm
  obtain ⟨t,ht⟩ := Option.isSome_iff_exists.mp (hsound.around m.value hinside)
  exact c.tableRecurs_iff.mpr ⟨n,m,hm,t,hsound.table.trans ht,.inr ⟨m.value,hinside,ht⟩⟩

variable [Fintype T] (c)

theorem ends : c.Ends (Fintype.card T + 1) :=
  zvalToBson_ends (Nat.lt_succ_self _) c.data c.flags c.recursive c.pending

/-- The guard does what is asked of it exactly if no value is met whose table is missing, and no
table comes inside itself but for a value that does. -/
theorem guardsRecursion_iff : c.GuardsRecursion ↔
    (∀ v, c.Encounters v → ¬ IsUndecodable c.heap c.libbson v) ∧ (c.TableRecurs → c.Cyclic) := by
  constructor
  · intro hguards
    constructor
    · rintro v ⟨a,hcomes,rfl⟩ hundecodable
      have hplain : a.value.isPlain = false := by
        cases hv : a.value with
        | plain p => simp [hv,IsUndecodable] at hundecodable
        | array | object => rfl
      obtain ⟨n,hm⟩ := (c.met_iff true _).mpr ⟨a,hcomes,hplain,rfl⟩
      have hs := c.run_sound true n _ hm
      refine hguards.protectsTables _ c.ends _ (met_subset c.ends n hm) ?_
      rw [hs.table]
      exact (tableOf_eq_none_iff hs.isPlain).mpr hundecodable
    · intro hrecurs
      exact (hguards.detects _ c.ends).mp ((reports_iff_tableRecurs c.ends).mpr hrecurs)
  · rintro ⟨hdecodable,hcyclic⟩
    refine ⟨⟨_,c.ends⟩,fun n hn => ?_,fun n hn m hm hnone => ?_,fun n _ => ?_⟩
    · rw [reports_iff_tableRecurs hn]
      exact ⟨hcyclic,Cyclic.tableRecurs⟩
    · have hs := c.run_sound true n m hm
      rw [hs.table,tableOf_eq_none_iff hs.isPlain] at hnone
      obtain ⟨a,hcomes,-,rfl⟩ := (c.met_iff true m).mp ⟨n,hm⟩
      exact hdecodable _ ⟨a,hcomes,rfl⟩ hnone
    · have hkeeps := zvalToBson_keeps c.heap c.libbson c.userland true n c.data c.flags c.recursive
        c.pending
      exact ⟨hkeeps.recursive,hkeeps.holds.size_eq⟩

end Call

/-- A Javascript object whose scope has a name that is no valid UTF-8. -/
def brokenScope : BsonObject :=
  .javascript (ascii "f") (some [(CString.ofBytes [128],.null)])

def holdsBrokenScope : Call Unit Unit Unit where
  heap :=
    { elements := fun _ => [(.str (ascii "a"),.value (.object ()))]
      objects := fun _ => .bson brokenScope ()
      references := fun _ => .plain .null }
  libbson := .ascii
  userland := .keeping .person
  data := .array ()
  flags := .none
  recursive := []
  pending := []

/-- The guard is applied to NULL. -/
theorem not_guardsRecursion : ¬ ∀ c : Call Unit Unit Unit, c.GuardsRecursion := by
  intro hall
  have hends : holdsBrokenScope.Ends 2 := by unfold Call.Ends; decide +kernel
  have hmet : (holdsBrokenScope.run true 2).2.met = [⟨[],.object (),none⟩] := by rfl
  have hm : (⟨[],.object (),none⟩ : Meeting Unit Unit) ∈ (holdsBrokenScope.run true 2).2.met := by
    rw [hmet]
    exact List.mem_singleton.mpr rfl
  exact (hall holdsBrokenScope).protectsTables 2 hends _ hm rfl

end Graph
end Phongo
