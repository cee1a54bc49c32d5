import Mathlib.Tactic.Common
import Phongo.Graph.Depth

/-! The encoder beside itself without recursion protection: both do the same until a table comes
inside itself, and the first alone reports it. -/
namespace Phongo
namespace Graph
variable {T O R α β : Type}

/-- The table has been flagged from the start, or is that of a value this one is inside of. -/
def Recurs (h : PhpHeap T O R) (L : Libbson) (recursive : List T) (m : Meeting T O) : Prop :=
  ∃ t, m.table = some t ∧ (t ∈ recursive ∨ ∃ v ∈ m.around, tableOf h L v = some t)

/-- A recursion has been reported since. -/
def Output.Detected (out out' : Output) : Prop :=
  ∃ thrown, out'.exceptions = thrown ++ out.exceptions ∧ ∃ x ∈ thrown, x.IsDetectedRecursion

theorem Output.Detected.trans {out out' out'' : Output} (h : Output.Detected out out')
    (hlater : out'.exceptions <:+ out''.exceptions) : Output.Detected out out'' := by
  obtain ⟨thrown,heq,x,hx,hrec⟩ := h
  obtain ⟨later,hlater⟩ := hlater
  refine ⟨later ++ thrown,?_,x,List.mem_append_right _ hx,hrec⟩
  rw [← hlater,heq,List.append_assoc]

theorem Output.Quiet.detected {out out' out'' : Output} (h : Output.Quiet out out')
    (hdetected : Output.Detected out' out'') : Output.Detected out out'' := by
  obtain ⟨thrown,heq,-⟩ := h
  obtain ⟨later,hlater,x,hx,hrec⟩ := hdetected
  refine ⟨later ++ thrown,?_,x,List.mem_append_left _ hx,hrec⟩
  rw [hlater,heq,List.append_assoc]

theorem Output.Quiet.not_detected {out out' : Output} (h : Output.Quiet out out') :
    ¬ Output.Detected out out' := by
  rintro ⟨thrown,heq,x,hx,hrec⟩
  obtain ⟨thrown',heq',hquiet⟩ := h
  rw [heq] at heq'
  have hsame := List.append_cancel_right heq'
  exact hquiet x (hsame ▸ hx) hrec

theorem throwAt_detected (e : GraphEncoder T O) :
    Output.Detected e.output (throwAt detectedRecursion [] e).2.output :=
  ⟨[.phongo .unexpectedValue detectedRecursion [.path e.fieldPath.asString]],rfl,_,
    List.mem_singleton.mpr rfl,_,rfl⟩

/-- The flags set are those of the values around, and those set from the start. -/
def Flagged (h : PhpHeap T O R) (L : Libbson) (recursive : List T) (e : GraphEncoder T O) : Prop :=
  e.recursive = e.around.filterMap (tableOf h L) ++ recursive

/-- How a step from `e` and the same step with the flags `flags` and no protection end: both have
met a recursion and the first reported it, or both ran out of fuel, or they did the same. -/
inductive Locked (h : PhpHeap T O R) (L : Libbson) (recursive : List T) (e : GraphEncoder T O)
    (flags : List T) : α × GraphEncoder T O → α × GraphEncoder T O → Prop
  | recursion {a a' s s'} (m : Meeting T O) (hm : Recurs h L recursive m) (hmet : m ∈ s.met)
      (hmet' : m ∈ s'.met) (hdetected : Output.Detected e.output s.output) :
      Locked h L recursive e flags (a,s) (a',s')
  | ranOut {a a' s s'} (hout : s.ranOut = true) (hout' : s'.ranOut = true)
      (hmet : s.met = s'.met) : Locked h L recursive e flags (a,s) (a',s')
  | same {a s} (hout : s.ranOut = false) (haround : s.around = e.around)
      (hflags : s.recursive = e.recursive) (hquiet : Output.Quiet e.output s.output)
      (hmet : ∀ m ∈ s.met, m ∈ e.met ∨ ¬ Recurs h L recursive m) :
      Locked h L recursive e flags (a,s) (a,{ s with recursive := flags })

section
variable {h : PhpHeap T O R} {L : Libbson} {recursive : List T} {e : GraphEncoder T O}
  {flags : List T} {r r' : α × GraphEncoder T O}

theorem Locked.recurs_iff (hlocked : Locked h L recursive e flags r r') :
    (∃ m ∈ r.2.met, Recurs h L recursive m) ↔ ∃ m ∈ r'.2.met, Recurs h L recursive m := by
  cases hlocked with
  | recursion m hm hmet hmet' _ => exact iff_of_true ⟨m,hmet,hm⟩ ⟨m,hmet',hm⟩
  | ranOut _ _ hmet => simp only [hmet]
  | same => exact Iff.rfl

/-- The first reports a recursion exactly if it has met one, unless it ran out of fuel. -/
theorem Locked.detected_iff (hlocked : Locked h L recursive e flags r r') (hmet : e.met = [])
    (hout : r.2.ranOut = false) : Output.Detected e.output r.2.output ↔
      ∃ m ∈ r.2.met, Recurs h L recursive m := by
  cases hlocked with
  | recursion m hm hmet _ hdetected => exact iff_of_true hdetected ⟨m,hmet,hm⟩
  | ranOut hout' => exact absurd (hout.symm.trans hout') (by decide)
  | same _ _ _ hquiet hnew =>
    refine iff_of_false hquiet.not_detected ?_
    rintro ⟨m,hm,hrecurs⟩
    rcases hnew m hm with hold | hnot
    · rw [hmet] at hold
      exact absurd hold List.not_mem_nil
    · exact hnot hrecurs

end

structure InLockstep (h : PhpHeap T O R) (L : Libbson) (recursive : List T)
    (f f' : Encode T O α) : Prop where
  records : Records f
  records' : Records f'
  locked : ∀ e flags, Flagged h L recursive e → e.ranOut = false →
    Locked h L recursive e flags (f e) (f' { e with recursive := flags })

section Steps
variable {h : PhpHeap T O R} {L : Libbson} {recursive : List T}

theorem InLockstep.refl {f : Encode T O α} (hf : Records f)
    (hsame : ∀ e, e.ranOut = false → (f e).2.ranOut = false ∧ (f e).2.around = e.around ∧
      (f e).2.recursive = e.recursive ∧ Output.Quiet e.output (f e).2.output ∧
      (f e).2.met = e.met)
    (hflags : ∀ e flags, f { e with recursive := flags } =
      ((f e).1,{ (f e).2 with recursive := flags })) : InLockstep h L recursive f f := by
  refine ⟨hf,hf,fun e flags _ he => ?_⟩
  obtain ⟨hout,haround,hrec,hquiet,hmet⟩ := hsame e he
  rw [hflags e flags]
  exact .same hout haround hrec hquiet fun m hm => .inl (hmet ▸ hm)

/-- Only what a step does to the rest of the state counts. -/
theorem Locked.weaken {e e' : GraphEncoder T O} {flags : List T} {r r' : α × GraphEncoder T O}
    (hlocked : Locked h L recursive e' flags r r') (haround : e'.around = e.around)
    (hflags : e'.recursive = e.recursive) (hquiet : Output.Quiet e.output e'.output)
    (hmet : ∀ m ∈ e'.met, m ∈ e.met ∨ ¬ Recurs h L recursive m) :
    Locked h L recursive e flags r r' := by
  cases hlocked with
  | recursion m hm hmet hmet' hdetected =>
    exact .recursion m hm hmet hmet' (hquiet.detected hdetected)
  | ranOut hout hout' hmet => exact .ranOut hout hout' hmet
  | same hout haround' hflags' hquiet' hmet' =>
    refine .same hout (haround'.trans haround) (hflags'.trans hflags) (hquiet.trans hquiet')
      fun m hm => ?_
    rcases hmet' m hm with hm | hm
    · exact hmet m hm
    · exact .inr hm

theorem InLockstep.bind {f f' : Encode T O α} {g g' : α → Encode T O β}
    (hf : InLockstep h L recursive f f') (hg : ∀ a, InLockstep h L recursive (g a) (g' a)) :
    InLockstep h L recursive (f >>= g) (f' >>= g') := by
  refine ⟨hf.records.bind fun a => (hg a).records,hf.records'.bind fun a => (hg a).records',
    fun e flags he hran => ?_⟩
  have hbind : ∀ (f : Encode T O α) (g : α → Encode T O β) e,
      (f >>= g) e = g (f e).1 (f e).2 := fun _ _ _ => rfl
  rw [hbind,hbind]
  have hlocked := hf.locked e flags he hran
  revert hlocked
  generalize f e = r
  generalize f' { e with recursive := flags } = r'
  intro hlocked
  cases hlocked with
  | @recursion a a' s s' m hm hmet hmet' hdetected =>
    exact .recursion m hm (((hg a).records.met s).subset hmet)
      (((hg a').records'.met s').subset hmet')
      (hdetected.trans ((hg a).records.exceptions s))
  | @ranOut a a' s s' hout hout' hmet =>
    obtain ⟨hg₁,hg₂⟩ := (hg a).records.ranOut s hout
    obtain ⟨hg₁',hg₂'⟩ := (hg a').records'.ranOut s' hout'
    exact .ranOut hg₁ hg₁' (by rw [hg₂,hg₂',hmet])
  | @same a s hout haround hflags hquiet hmet =>
    have hs : Flagged h L recursive s := by
      rw [Flagged,hflags,haround]
      exact he
    have hnext := (hg a).locked s flags hs hout
    exact hnext.weaken haround hflags hquiet hmet

theorem Locked.leave {e : GraphEncoder T O} {flags : List T} {r r' : α × GraphEncoder T O}
    (hlocked : Locked h L recursive e flags r r') : Locked h L recursive e flags
      (r.1,{ r.2 with fieldPath := r.2.fieldPath.leave })
      (r'.1,{ r'.2 with fieldPath := r'.2.fieldPath.leave }) := by
  cases hlocked with
  | recursion m hm hmet hmet' hdetected => exact .recursion m hm hmet hmet' hdetected
  | ranOut hout hout' hmet => exact .ranOut hout hout' hmet
  | @same a s hout haround hflags hquiet hmet =>
    exact .same (s:={ s with fieldPath := s.fieldPath.leave }) hout haround hflags hquiet hmet

theorem InLockstep.element {f f' : Encode T O Doc} (key : CString)
    (hf : InLockstep h L recursive f f') :
    InLockstep h L recursive (element key f) (element key f') := by
  refine ⟨hf.records.element key,hf.records'.element key,fun e flags he hran => ?_⟩
  have hlocked := hf.locked { e with fieldPath := e.fieldPath.writeItemAtCurrentLevel key } flags
    he hran
  exact hlocked.weaken rfl rfl (ThrowsOf.refl _) fun m hm => .inl hm

theorem InLockstep.nested {f f' : Encode T O Doc} (type : ItemType)
    (hf : InLockstep h L recursive f f') :
    InLockstep h L recursive (nested type f) (nested type f') := by
  refine ⟨hf.records.nested type,hf.records'.nested type,fun e flags he hran => ?_⟩
  have hlocked := hf.locked
    { e with fieldPath := (e.fieldPath.writeTypeAtCurrentLevel type).enter } flags he hran
  have hsame : Locked h L recursive e flags _ _ :=
    hlocked.weaken rfl rfl (ThrowsOf.refl _) fun m hm => .inl hm
  exact hsame.leave

/-- Both steps, with protection and without, go in lockstep. -/
def Lockstep (h : PhpHeap T O R) (L : Libbson) (recursive : List T) : StepRelation T O :=
  fun _ _ f f' => InLockstep h L recursive f f'

theorem lockstep_congruence : Congruence (Lockstep (O:=O) h L recursive) where
  pure _ a := .refl (.pure a) (fun _ he => ⟨he,rfl,rfl,ThrowsOf.refl _,rfl⟩) fun _ _ => rfl
  bind hf hg := hf.bind hg
  weaken hf := hf
  onOutput f := fun hquiet hg => (InLockstep.refl (Records.onOutput f hquiet)
    (fun e he => ⟨he,rfl,rfl,hquiet e.output,rfl⟩) fun _ _ => rfl).bind hg
  throwAt format args hformat := .refl (.throwAt format args)
    (fun e he => ⟨he,rfl,rfl,quiet_throw _ hformat e.output,rfl⟩) fun _ _ => rfl
  element key hf := hf.element key
  nested type hf := hf.nested type

end Steps

section Guarded
variable {h : PhpHeap T O R} {L : Libbson} {recursive : List T}

theorem meet_flags (e : GraphEncoder T O) (flags : List T) (v : HeapValue T O) (ht : Option T) :
    GraphEncoder.meet { e with recursive := flags } v ht =
      { GraphEncoder.meet e v ht with recursive := flags } := by
  unfold GraphEncoder.meet
  split <;> rfl

theorem guarded_unprotected [DecidableEq T] (v : HeapValue T O) (ht : Option T) (type : ItemType)
    (f : Encode T O Doc) (e : GraphEncoder T O) : guarded false v ht type f e =
      (let r := nested type f { GraphEncoder.meet e v ht with
        around := v::(GraphEncoder.meet e v ht).around }
      (r.1,{ r.2 with around := r.2.around.tail })) := rfl

/-- A table is flagged exactly if it comes inside itself. -/
theorem recurs_iff {e : GraphEncoder T O} (he : Flagged h L recursive e) (v : HeapValue T O) :
    Recurs h L recursive ⟨e.around,v,tableOf h L v⟩ ↔
      ∃ t ∈ flagFor true (tableOf h L v), t ∈ e.recursive := by
  rw [he]
  simp only [Recurs,flagFor,if_true,Option.mem_toList,List.mem_append,List.mem_filterMap,
    or_comm]

theorem Flagged.protect {e : GraphEncoder T O} (he : Flagged h L recursive e)
    (v : HeapValue T O) : Flagged h L recursive (protect (flagFor true (tableOf h L v)) v e) := by
  rw [Flagged,Graph.protect,he]
  cases htable : tableOf h L v <;> simp [flagFor,htable]

theorem Locked.unprotect [DecidableEq T] {e : GraphEncoder T O} {flags flag : List T} {v : HeapValue T O}
    {r r' : Doc × GraphEncoder T O} (hlocked : Locked h L recursive (protect flag v e) flags r r') :
    Locked h L recursive e flags (r.1,unprotect flag r.2)
      (r'.1,{ r'.2 with around := r'.2.around.tail }) := by
  cases hlocked with
  | recursion m hm hmet hmet' hdetected => exact .recursion m hm hmet hmet' hdetected
  | ranOut hout hout' hmet => exact .ranOut hout hout' hmet
  | @same a s hout haround hflags hquiet hmet =>
    refine .same (s:=Graph.unprotect flag s) hout ?_ ?_ hquiet hmet
    · rw [Graph.unprotect,haround]
      rfl
    · rw [Graph.unprotect,hflags]
      exact foldl_erase_append flag e.recursive

theorem lockstep_guards [DecidableEq T] :
    Guards h L true false (Lockstep h L recursive) (Lockstep h L recursive) := by
  intro v type f f' _ hf _
  refine ⟨hf.records.guarded true v _ type,hf.records'.guarded false v _ type,
    fun e flags he hran => ?_⟩
  have hmet := met_meet v (tableOf h L v) hran
  have hm : ⟨e.around,v,tableOf h L v⟩ ∈ (GraphEncoder.meet e v (tableOf h L v)).met := by
    rw [hmet]
    exact List.mem_append_right _ (List.mem_singleton.mpr rfl)
  have hflagged : Flagged h L recursive (GraphEncoder.meet e v (tableOf h L v)) := by
    rw [Flagged,recursive_meet,around_meet]
    exact he
  rw [guarded_unprotected,meet_flags]
  refine guarded_cases (P:=fun r => Locked h L recursive e flags r _) e (fun t ht hrec => ?_)
    fun hfree => ?_
  · -- the second goes on, but has met the value too
    have hrecurs : Recurs h L recursive ⟨e.around,v,tableOf h L v⟩ :=
      (recurs_iff he v).mpr ⟨t,ht,by rwa [recursive_meet] at hrec⟩
    refine .recursion _ hrecurs hm (((hf.records'.nested type).met _).subset hm) ?_
    exact output_meet e v (tableOf h L v) ▸ throwAt_detected (GraphEncoder.meet e v (tableOf h L v))
  · have hnew : ¬ Recurs h L recursive ⟨e.around,v,tableOf h L v⟩ := fun hrecurs => by
      obtain ⟨t,ht,hrec⟩ := (recurs_iff he v).mp hrecurs
      exact hfree t ht (by rwa [recursive_meet])
    have hbody : Locked h L recursive (GraphEncoder.meet e v (tableOf h L v)) flags _ _ :=
      ((hf.nested type).locked _ flags (hflagged.protect v)
        ((ranOut_meet e v (tableOf h L v)).trans hran)).unprotect
    refine hbody.weaken (around_meet _ _ _) (recursive_meet _ _ _)
      (output_meet e v (tableOf h L v) ▸ ThrowsOf.refl _) fun m hm => ?_
    rw [hmet] at hm
    rcases List.mem_append.mp hm with hm | hm
    · exact .inl hm
    · rw [List.mem_singleton.mp hm]
      exact .inr hnew

end Guarded

end Graph
end Phongo
