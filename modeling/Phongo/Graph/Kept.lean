import Mathlib.Tactic.Common
import Phongo.FieldPathRendering
import Phongo.Graph.Congruence

/-! What every encoding leaves as it was: the open levels of the field path and the recursion
flags, whatever was thrown. -/
namespace Phongo
namespace Graph
variable {T O R α β : Type}

/-- The path is open; if `written`, the key of the element at hand has been written. -/
structure At (e : GraphEncoder T O) (written : Bool) (path : List CString) : Prop where
  holds : e.fieldPath.Holds path
  key : written = true → ∃ fp key, FieldPath.Holds fp path ∧
    e.fieldPath = fp.writeItemAtCurrentLevel key

/-- From `e` to `e'` the open levels and the flags are kept, and paths rendered in bounds. -/
structure Keeps (path : List CString) (e e' : GraphEncoder T O) : Prop where
  holds : e'.fieldPath.Holds path
  recursive : e'.recursive = e.recursive
  around : e'.around = e.around
  rendered : ∃ later, e'.rendered = e.rendered ++ later ∧ ∀ fp ∈ later, fp.InBounds

def Keeping : StepRelation T O := fun _ written f _ =>
  ∀ e path, At e written path → Keeps path e (f e).2

section
variable {e e' e'' : GraphEncoder T O} {written : Bool} {path : List CString}

theorem Keeps.refl (h : e.fieldPath.Holds path) : Keeps path e e :=
  ⟨h,rfl,rfl,[],(List.append_nil _).symm,fun _ hfp => absurd hfp List.not_mem_nil⟩

theorem Keeps.trans (h : Keeps path e e') (h' : Keeps path e' e'') :
    Keeps path e e'' := by
  obtain ⟨later,hlater,hin⟩ := h.rendered
  obtain ⟨later',hlater',hin'⟩ := h'.rendered
  refine ⟨h'.holds,h'.recursive.trans h.recursive,h'.around.trans h.around,later ++ later',?_,?_⟩
  · rw [hlater',hlater,List.append_assoc]
  · intro fp hfp
    rcases List.mem_append.mp hfp with hfp | hfp
    · exact hin fp hfp
    · exact hin' fp hfp

theorem Keeps.at (h : Keeps path e e') : At e' false path :=
  ⟨h.holds,fun hw => absurd hw (by decide)⟩

theorem throwAt_keeps (h : At e true path) (format : String) (args : List Arg) :
    Keeps path e (throwAt format args e).2 := by
  obtain ⟨fp,key,hfp,heq⟩ := h.key rfl
  refine ⟨h.holds,rfl,rfl,[e.fieldPath],rfl,fun fp' hfp' => ?_⟩
  rw [List.mem_singleton.mp hfp',heq]
  exact hfp.inBounds_writeItem key

/-- What a body keeps one level down is kept, once the level is closed. -/
theorem nested_keeps {f : Encode T O Doc} (type : ItemType) (h : At e true path)
    (hf : ∀ path, (At e' false path → Keeps path e' (f e').2))
    (he' : e' = { e with fieldPath := (e.fieldPath.writeTypeAtCurrentLevel type).enter }) :
    Keeps path e (nested type f e).2 := by
  obtain ⟨fp,key,hfp,heq⟩ := h.key rfl
  have hpush : e'.fieldPath.Holds (path ++ [key]) := by
    rw [he',heq]
    exact hfp.push key type
  have hkept := hf _ ⟨hpush,fun hw => absurd hw (by decide)⟩
  subst he'
  exact ⟨hkept.holds.leave,hkept.recursive,hkept.around,hkept.rendered⟩

end

theorem keeping_congruence : Congruence (Keeping (T:=T) (O:=O)) where
  pure written a := fun e path h => Keeps.refl h.holds
  bind hf hg := fun e path h => (hf e path h).trans (hg _ _ path (hf e path h).at)
  weaken hf := fun e path h => hf e path ⟨h.holds,fun hw => absurd hw (by decide)⟩
  onOutput f := fun _ hg e path h => by
    obtain ⟨hholds,hrecursive,haround,hrendered⟩ := hg (f e.output).1
      { e with output := (f e.output).2 } path ⟨h.holds,h.key⟩
    exact ⟨hholds,hrecursive,haround,hrendered⟩
  throwAt format args _ := fun e path h => throwAt_keeps h format args
  element key hf := fun e path h => by
    obtain ⟨hholds,hrecursive,haround,hrendered⟩ := hf
      { e with fieldPath := e.fieldPath.writeItemAtCurrentLevel key } path
      ⟨h.holds.writeItem key,fun _ => ⟨e.fieldPath,key,h.holds,rfl⟩⟩
    exact ⟨hholds,hrecursive,haround,hrendered⟩
  nested type hf := fun e path h => nested_keeps type h (hf _) rfl

theorem start_at (recursive : List T) (eg : Pending) :
    At (start (O:=O) recursive eg) false [] :=
  ⟨FieldPath.alloc_holds,fun hw => absurd hw (by decide)⟩

section Whole
variable [DecidableEq T] {h : PhpHeap T O R} {L : Libbson} {U : Userland} {protects : Bool}

theorem keeping_guards : Guards h L protects protects Keeping Keeping := by
  intro v type f _ _ hf _ e path hat
  have hmet : Keeps path e (GraphEncoder.meet e v (tableOf h L v)) :=
    ⟨by simpa using hat.holds,by simp,by simp,[],by simp,
      fun _ hfp => absurd hfp List.not_mem_nil⟩
  have hat' : At (GraphEncoder.meet e v (tableOf h L v)) true path :=
    ⟨hmet.holds,fun _ => by simpa using hat.key rfl⟩
  refine guarded_cases (P:=fun r => Keeps path e r.2) e (fun t _ _ => ?_) fun _ => ?_
  · exact hmet.trans (throwAt_keeps hat' _ _)
  · have hprotect : At (protect (flagFor protects (tableOf h L v)) v
        (GraphEncoder.meet e v (tableOf h L v))) true path := ⟨hat'.holds,hat'.key⟩
    obtain ⟨hholds,hrecursive,haround,hrendered⟩ := nested_keeps (f:=f) type hprotect (hf _) rfl
    refine hmet.trans ⟨hholds,?_,?_,hrendered⟩
    · rw [unprotect,hrecursive]
      exact foldl_erase_append _ _
    · rw [unprotect,haround]
      rfl

theorem append_keeps (depth : ℕ) (key : CString) (v : HeapValue T O) :
    Keeping Doc false (append h L U protects depth key v) (append h L U protects depth key v) := by
  induction depth generalizing key v with
  | zero => exact fun e path hat => ⟨hat.holds,rfl,rfl,[],(List.append_nil _).symm,
      fun _ hfp => absurd hfp List.not_mem_nil⟩
  | succ n ih =>
    exact keeping_congruence.element key
      (keeping_congruence.appendValue keeping_congruence keeping_guards ih key v)

/-- An encoding ends with the flags set that were set when it began, at the root of the path, and
has rendered every path in bounds. -/
theorem zvalToBson_keeps (h : PhpHeap T O R) (L : Libbson) (U : Userland) (protects : Bool)
    (depth : ℕ) (data : HeapValue T O) (flags : Flags) (recursive : List T) (eg : Pending) :
    Keeps [] (start recursive eg)
      (zvalToBson h L U protects depth data flags recursive eg).2 :=
  keeping_congruence.internal (append_keeps depth) flags data _ _ (start_at recursive eg)

end Whole

end Graph
end Phongo
