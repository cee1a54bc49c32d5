import Mathlib.Data.Fintype.Card
import Mathlib.Data.List.Infix
import Mathlib.Tactic.Common
import Phongo.Graph.Congruence

/-! How deep an encoding goes: recursion protection bounds the depth by the number of tables, and
a run allowed to go deeper meets the same values before it meets others. -/
namespace Phongo
namespace Graph
variable {T O R α β : Type}

/-- Nothing that was met or thrown is forgotten, and nothing is met beyond the fuel. -/
structure Records (f : Encode T O α) : Prop where
  met : ∀ e, e.met <+: (f e).2.met
  exceptions : ∀ e, e.output.exceptions <:+ (f e).2.output.exceptions
  ranOut : ∀ e, e.ranOut = true → (f e).2.ranOut = true ∧ (f e).2.met = e.met

namespace Records

theorem pure (a : α) : Records (Pure.pure a : Encode T O α) :=
  ⟨fun _ => List.prefix_rfl,fun _ => List.suffix_rfl,fun _ h => ⟨h,rfl⟩⟩

theorem bind {f : Encode T O α} {g : α → Encode T O β} (hf : Records f) (hg : ∀ a, Records (g a)) :
    Records (f >>= g) := by
  refine ⟨fun e => (hf.met e).trans ((hg _).met _),
    fun e => (hf.exceptions e).trans ((hg _).exceptions _),fun e he => ?_⟩
  obtain ⟨hout,hmet⟩ := hf.ranOut e he
  obtain ⟨hout',hmet'⟩ := (hg (f e).1).ranOut _ hout
  exact ⟨hout',hmet'.trans hmet⟩

theorem onOutput (f : Output → α × Output) (hquiet : ∀ out, Output.Quiet out (f out).2) :
    Records (onOutput f : Encode T O α) := by
  refine ⟨fun _ => List.prefix_rfl,fun e => ?_,fun _ h => ⟨h,rfl⟩⟩
  obtain ⟨thrown,heq,-⟩ := hquiet e.output
  exact ⟨thrown,heq.symm⟩

theorem throwAt (format : String) (args : List Arg) :
    Records (throwAt format args : Encode T O Doc) :=
  ⟨fun _ => List.prefix_rfl,fun _ => List.suffix_cons _ _,fun _ h => ⟨h,rfl⟩⟩

theorem runOut : Records (runOut : Encode T O Doc) :=
  ⟨fun _ => List.prefix_rfl,fun _ => List.suffix_rfl,fun _ _ => ⟨rfl,rfl⟩⟩

theorem element {f : Encode T O Doc} (key : CString) (h : Records f) :
    Records (element key f) := by
  refine ⟨fun e => ?_,fun e => ?_,fun e he => ?_⟩
  · exact h.met { e with fieldPath := e.fieldPath.writeItemAtCurrentLevel key }
  · exact h.exceptions { e with fieldPath := e.fieldPath.writeItemAtCurrentLevel key }
  · exact h.ranOut { e with fieldPath := e.fieldPath.writeItemAtCurrentLevel key } he

theorem nested {f : Encode T O Doc} (type : ItemType) (h : Records f) :
    Records (nested type f) := by
  refine ⟨fun e => ?_,fun e => ?_,fun e he => ?_⟩
  · exact h.met { e with fieldPath := (e.fieldPath.writeTypeAtCurrentLevel type).enter }
  · exact h.exceptions { e with fieldPath := (e.fieldPath.writeTypeAtCurrentLevel type).enter }
  · exact h.ranOut { e with fieldPath := (e.fieldPath.writeTypeAtCurrentLevel type).enter } he

theorem guarded [DecidableEq T] {f : Encode T O Doc} (protects : Bool) (v : HeapValue T O)
    (ht : Option T) (type : ItemType) (h : Records f) : Records (guarded protects v ht type f) := by
  have hn := h.nested type
  have hmet := fun e => met_prefix_meet e v ht
  refine ⟨fun e => ?_,fun e => ?_,fun e he => ?_⟩
  · refine guarded_cases (P:=fun r => e.met <+: r.2.met) e (fun _ _ _ => hmet e) fun _ => ?_
    exact (hmet e).trans (hn.met (protect (flagFor protects ht) v (GraphEncoder.meet e v ht)))
  · refine guarded_cases (P:=fun r => e.output.exceptions <:+ r.2.output.exceptions) e
      (fun _ _ _ => ?_) fun _ => ?_
    · exact output_meet e v ht ▸ (throwAt detectedRecursion []).exceptions _
    · exact output_meet e v ht ▸ hn.exceptions (protect _ v (GraphEncoder.meet e v ht))
  · have he' : (GraphEncoder.meet e v ht).ranOut = true := (ranOut_meet e v ht).trans he
    have hsame := met_meet_of_ranOut v ht he
    refine guarded_cases (P:=fun r => r.2.ranOut = true ∧ r.2.met = e.met) e
      (fun _ _ _ => ⟨he',hsame⟩) fun _ => ?_
    obtain ⟨hout,hmet'⟩ := hn.ranOut
      (protect (flagFor protects ht) v (GraphEncoder.meet e v ht)) he'
    exact ⟨hout,hmet'.trans hsame⟩

end Records

def Recording : StepRelation T O := fun _ _ f f' => Records f ∧ Records f'

theorem recording_congruence : Congruence (Recording (T:=T) (O:=O)) where
  pure _ a := ⟨.pure a,.pure a⟩
  bind hf hg := ⟨hf.1.bind fun a => (hg a).1,hf.2.bind fun a => (hg a).2⟩
  weaken hf := hf
  onOutput f := fun hquiet hg => ⟨(Records.onOutput f hquiet).bind fun a => (hg a).1,
    (Records.onOutput f hquiet).bind fun a => (hg a).2⟩
  throwAt format args _ := ⟨.throwAt format args,.throwAt format args⟩
  element key hf := ⟨hf.1.element key,hf.2.element key⟩
  nested type hf := ⟨hf.1.nested type,hf.2.nested type⟩

section
variable [DecidableEq T] {h : PhpHeap T O R} {L : Libbson} {U : Userland} {protects : Bool}

theorem append_records (depth : ℕ) (key : CString) (v : HeapValue T O) :
    Records (append h L U protects depth key v) := by
  have hpair : Recording Doc false (append h L U protects depth key v)
      (append h L U protects depth key v) := by
    induction depth generalizing key v with
    | zero => exact ⟨.runOut,.runOut⟩
    | succ n ih =>
      refine recording_congruence.element key
        (recording_congruence.appendValue recording_congruence ?_ ih key v)
      exact fun v type f f' _ hf _ => ⟨hf.1.guarded protects v _ type,hf.2.guarded protects v _ type⟩
  exact hpair.1

end

section Deeper

/-- The first step does what the second does, or runs out of fuel, having met a part of what the
second meets. -/
structure Deeper {α : Type} (f f' : Encode T O α) : Prop where
  records : Records f
  records' : Records f'
  agrees : ∀ e, f e = f' e ∨ ((f e).2.ranOut = true ∧ (f e).2.met <+: (f' e).2.met)

theorem Deeper.refl {f : Encode T O α} (h : Records f) : Deeper f f := ⟨h,h,fun _ => .inl rfl⟩

theorem Deeper.bind {f f' : Encode T O α} {g g' : α → Encode T O β} (hf : Deeper f f')
    (hg : ∀ a, Deeper (g a) (g' a)) : Deeper (f >>= g) (f' >>= g') := by
  refine ⟨hf.records.bind fun a => (hg a).records,hf.records'.bind fun a => (hg a).records',
    fun e => ?_⟩
  have hbind : ∀ (f : Encode T O α) (g : α → Encode T O β),
      (f >>= g) e = g (f e).1 (f e).2 := fun _ _ => rfl
  rw [hbind,hbind]
  rcases hf.agrees e with heq | ⟨hout,hmet⟩
  · rw [heq]
    exact (hg _).agrees _
  · obtain ⟨hout',hsame⟩ := (hg (f e).1).records.ranOut _ hout
    refine .inr ⟨hout',?_⟩
    rw [hsame]
    exact hmet.trans ((hg _).records'.met _)

theorem Deeper.nested {f f' : Encode T O Doc} (type : ItemType) (h : Deeper f f') :
    Deeper (nested type f) (nested type f') := by
  refine ⟨h.records.nested type,h.records'.nested type,fun e => ?_⟩
  rcases h.agrees { e with fieldPath := (e.fieldPath.writeTypeAtCurrentLevel type).enter } with
    heq | hless
  · left
    simp only [Graph.nested,heq]
  · exact .inr hless

def Deepening : StepRelation T O := fun _ _ f f' => Deeper f f'

theorem deepening_congruence : Congruence (Deepening (T:=T) (O:=O)) where
  pure _ a := .refl (.pure a)
  bind hf hg := hf.bind hg
  weaken hf := hf
  onOutput f := fun hquiet hg => (Deeper.refl (Records.onOutput f hquiet)).bind hg
  throwAt format args _ := .refl (.throwAt format args)
  element key h := ⟨h.records.element key,h.records'.element key,fun e =>
    h.agrees { e with fieldPath := e.fieldPath.writeItemAtCurrentLevel key }⟩
  nested type h := h.nested type

variable [DecidableEq T] {h : PhpHeap T O R} {L : Libbson} {U : Userland} {protects : Bool}

theorem deepening_guards : Guards h L protects protects Deepening Deepening := by
  intro v type f f' _ hf _
  refine ⟨hf.records.guarded protects v _ type,hf.records'.guarded protects v _ type,fun e => ?_⟩
  refine guarded_cases (P:=fun r => r = guarded protects v (tableOf h L v) type f' e ∨
    (r.2.ranOut = true ∧ r.2.met <+: (guarded protects v (tableOf h L v) type f' e).2.met)) e
    (fun t ht hrec => ?_) fun hfree => ?_
  · refine guarded_cases (P:=fun r => throwAt detectedRecursion []
      (GraphEncoder.meet e v (tableOf h L v)) = r ∨ _ ∧ _ <+: r.2.met) e (fun _ _ _ => .inl rfl)
      fun hfree => ?_
    exact absurd hrec (hfree t ht)
  · refine guarded_cases (P:=fun r => _ = r ∨ _ ∧ _ <+: r.2.met) e
      (fun t ht hrec => absurd hrec (hfree t ht)) fun _ => ?_
    rcases (hf.nested type).agrees (protect (flagFor protects (tableOf h L v)) v
      (GraphEncoder.meet e v (tableOf h L v))) with heq | hless
    · exact .inl (by simp only [heq])
    · exact .inr hless

theorem append_deeper {n n' : ℕ} (hle : n ≤ n') (key : CString) (v : HeapValue T O) :
    Deeper (append h L U protects n key v) (append h L U protects n' key v) := by
  induction n generalizing n' key v with
  | zero => exact ⟨.runOut,append_records n' key v,fun e =>
      .inr ⟨rfl,(append_records n' key v).met e⟩⟩
  | succ n ih =>
    obtain ⟨m,rfl⟩ := Nat.exists_eq_add_of_le' hle
    exact deepening_congruence.element key (deepening_congruence.appendValue deepening_congruence
      deepening_guards (fun key v => ih (Nat.le_add_left n m) key v) key v)

end Deeper

section Ending
variable [Fintype T] [DecidableEq T]

def unflagged (recursive : List T) : ℕ := (Finset.univ.filter (· ∉ recursive)).card

theorem unflagged_cons_lt {t : T} {ts : List T} (h : t ∉ ts) :
    unflagged (t::ts) < unflagged ts := by
  refine Finset.card_lt_card ⟨fun t' ht' => ?_,fun hsubset => ?_⟩
  · simp only [Finset.mem_filter,List.mem_cons,not_or] at ht' ⊢
    exact ⟨ht'.1,ht'.2.2⟩
  · have hmem := hsubset (Finset.mem_filter.mpr ⟨Finset.mem_univ t,h⟩)
    simp at hmem

/-- With fewer than `n` tables to flag, the fuel suffices and the flags are restored. -/
def Ending (n : ℕ) : StepRelation T O := fun _ _ f _ =>
  ∀ e, unflagged e.recursive < n →
    (e.ranOut = false → (f e).2.ranOut = false) ∧ (f e).2.recursive = e.recursive

theorem ending_congruence (n : ℕ) : Congruence (Ending (T:=T) (O:=O) n) where
  pure _ a := fun e _ => ⟨id,rfl⟩
  bind {_ _ _ f _ g _} hf hg := fun e hn => by
    obtain ⟨hout,hrec⟩ := hf e hn
    obtain ⟨hout',hrec'⟩ := hg (f e).1 (f e).2 (by rw [hrec]; exact hn)
    exact ⟨fun he => hout' (hout he),hrec'.trans hrec⟩
  weaken hf := hf
  onOutput f := fun _ hg e hn => hg (f e.output).1 { e with output := (f e.output).2 } hn
  throwAt format args _ := fun e _ => ⟨id,rfl⟩
  element key hf := fun e hn =>
    hf { e with fieldPath := e.fieldPath.writeItemAtCurrentLevel key } hn
  nested type hf := fun e hn =>
    hf { e with fieldPath := (e.fieldPath.writeTypeAtCurrentLevel type).enter } hn

variable {h : PhpHeap T O R} {L : Libbson} {U : Userland}

theorem ending_guards (n : ℕ) : Guards h L true true (Ending n) (Ending (O:=O) (n+1)) := by
  intro v type f f' _ hf hleaf e hn
  have hn' : unflagged (GraphEncoder.meet e v (tableOf h L v)).recursive < n+1 := by
    rw [recursive_meet]
    exact hn
  refine guarded_cases (P:=fun r => (e.ranOut = false → r.2.ranOut = false) ∧
    r.2.recursive = e.recursive) e (fun _ _ _ => ⟨by simp [throwAt],by simp [throwAt]⟩)
    fun hfree => ?_
  obtain ⟨hout,hrec⟩ : (GraphEncoder.ranOut e = false → (nested type f (protect
        (flagFor true (tableOf h L v)) v (GraphEncoder.meet e v (tableOf h L v)))).2.ranOut = false) ∧
      (nested type f (protect (flagFor true (tableOf h L v)) v
        (GraphEncoder.meet e v (tableOf h L v)))).2.recursive =
        flagFor true (tableOf h L v) ++ (GraphEncoder.meet e v (tableOf h L v)).recursive := by
    rw [← ranOut_meet e v (tableOf h L v)]
    cases htable : tableOf h L v with
    | none =>
      rw [htable] at hn'
      obtain ⟨fields,rfl,-⟩ := hleaf htable
      exact (ending_congruence (n+1)).nested type ((ending_congruence (n+1)).pure false fields)
        (protect (flagFor true none) v (GraphEncoder.meet e v none)) hn'
    | some t =>
      rw [htable] at hn' hfree
      have ht : t ∉ (GraphEncoder.meet e v (some t)).recursive := hfree t (by simp [flagFor])
      have hless : unflagged (t::(GraphEncoder.meet e v (some t)).recursive) < n :=
        (unflagged_cons_lt ht).trans_le (Nat.lt_succ_iff.mp hn')
      exact (ending_congruence n).nested type hf
        (protect (flagFor true (some t)) v (GraphEncoder.meet e v (some t))) hless
  refine ⟨hout,?_⟩
  rw [unprotect,hrec]
  simp only [foldl_erase_append,recursive_meet]

theorem append_ending (n : ℕ) (key : CString) (v : HeapValue T O) :
    Ending n Doc false (append h L U true n key v) (append h L U true n key v) := by
  induction n generalizing key v with
  | zero => exact fun e hn => absurd hn (Nat.not_lt_zero _)
  | succ n ih =>
    exact (ending_congruence (n+1)).element key ((ending_congruence (n+1)).appendValue
      (ending_congruence n) (ending_guards n) ih key v)

/-- An encoding never goes deeper than there are tables. -/
theorem zvalToBson_ends {n : ℕ} (hn : Fintype.card T < n) (data : HeapValue T O) (flags : Flags)
    (recursive : List T) (eg : Pending) :
    (zvalToBson h L U true n data flags recursive eg).2.ranOut = false := by
  have hstart : unflagged (start (O:=O) recursive eg).recursive < n :=
    (Finset.card_le_univ _).trans_lt hn
  exact ((ending_congruence n).internal (append_ending n) flags data _ hstart).1 rfl

end Ending

end Graph
end Phongo
