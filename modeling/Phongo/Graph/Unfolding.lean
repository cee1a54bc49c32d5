import Mathlib.Tactic.Common
import Phongo.Graph.Depth

/-! The two models of the encoder: on a heap, with shared tables and cycles, and on trees.
The tree that a value of a heap unfolds to, as deep as recursion protection lets the encoder go,
is encoded as the value is. What is proved of trees holds of heaps. -/
namespace Phongo
namespace Graph
variable {T O R α : Type}

mutual

def plainZval : Plain → Zval
  | .null => .null
  | .bool b => .bool b
  | .long n => .long n
  | .double bits => .double bits
  | .string s => .string s
  | .resource => .resource
  | .immutable els => .array none (plainZvals els)

def plainZvals : List (Key × Plain) → List (Key × Zval)
  | [] => []
  | (key,p)::rest => (key,plainZval p)::plainZvals rest

end

section Unfold
variable (h : PhpHeap T O R) (number : T → ℕ)

def slotZval (child : HeapValue T O → Zval) : Slot T O R → Zval
  | .value v => child v
  | .reference r => .reference (child (h.references r))

/-- The elements of a table, with the trees of the values in it. -/
def unfoldTable (child : HeapValue T O → Zval) (t : T) : List (Key × Zval) :=
  (h.elements t).map fun e => (e.1,slotZval h child e.2)

/-- A value with the trees of what is in its table. What `bsonSerialize()` returns may be an
object whose `bsonSerialize()` is called in turn, but no further. -/
def unfoldValue (child : HeapValue T O → Zval) : ℕ → HeapValue T O → Zval
  | _,.plain p => plainZval p
  | _,.array t => .array (some (number t)) (unfoldTable h child t)
  | 0,.object o =>
    match h.objects o with
    | .bson obj _ => .bson obj
    | .cursorId id _ => .cursorId id
    | .user ce t _ => .object ce (some (number t)) (unfoldTable h child t) .null
  | k+1,.object o =>
    match h.objects o with
    | .bson obj _ => .bson obj
    | .cursorId id _ => .cursorId id
    | .user ce t (.threw ids) =>
      .object ce (some (number t)) (unfoldTable h child t) (.undef ids)
    | .user ce t (.value v) =>
      .object ce (some (number t)) (unfoldTable h child t) (unfoldValue child k v)

def unfold : ℕ → HeapValue T O → Zval
  | 0,_ => .null
  | n+1,v => unfoldValue h number (unfold n) 2 v

def IsValueTable (t : T) : Prop :=
  ∃ o, (∃ obj, h.objects o = .bson obj t) ∨ ∃ id, h.objects o = .cursorId id t

/-- The value is not the array in a value object's table. -/
def Apart (v : HeapValue T O) : Prop := ∀ t, v = .array t → ¬ IsValueTable h t

/-- A value object shares its table with nothing. -/
structure Separate : Prop where
  user : ∀ o ce t returned, h.objects o = .user ce t returned → ¬ IsValueTable h t
  slots : ∀ t, ∀ e ∈ h.elements t, Apart h (deref h e.2)
  returned : ∀ o ce t v, h.objects o = .user ce t (.value v) → Apart h v

end Unfold

section Simulation
variable (h : PhpHeap T O R) (number : T → ℕ)

/-- The encoder on trees in the state of the encoder on the heap. -/
def view (e : GraphEncoder T O) : Encoder where
  fieldPath := e.fieldPath
  protectedTables := e.recursive.map number
  exceptions := e.output.exceptions
  generatedOids := e.output.generatedOids
  bsonOut := e.output.bsonOut

def Unflagged (e : GraphEncoder T O) : Prop := ∀ t ∈ e.recursive, ¬ IsValueTable h t

/-- The step on the heap, where the fuel lasts, does what the step on trees does. -/
def Refines (f : Append) (g : Encode T O Doc) : Prop :=
  ∀ e, Unflagged h e → (g e).2.ranOut = false →
    f (view number e) = ((g e).1,view number (g e).2) ∧ Unflagged h (g e).2

def RefinesLoop (f : Phongo.Loop) (g : Loop T O) : Prop :=
  ∀ addId e, Unflagged h e → (g addId e).2.ranOut = false →
    f addId (view number e) = ⟨(g addId e).1.fields,(g addId e).1.addId,(g addId e).1.aborted,
      view number (g addId e).2⟩ ∧ Unflagged h (g addId e).2

variable {h number}

theorem Records.lasted {f : Encode T O α} (hf : Records f) {e : GraphEncoder T O}
    (h : (f e).2.ranOut = false) : e.ranOut = false := by
  by_contra hne
  have htrue : e.ranOut = true := by simpa using hne
  have hout := (hf.ranOut e htrue).1
  simp [h] at hout

theorem pure_refines (d : Doc) : Refines h number (fun e => (d,e)) (pure d : Encode T O Doc) :=
  fun _ he _ => ⟨rfl,he⟩

theorem throw_refines (format : String) (args : List Arg) :
    Refines h number (fun e => ([],e.throw format args)) (throw format args : Encode T O Doc) :=
  fun _ he _ => ⟨rfl,he⟩

theorem throwAt_refines (format : String) (args : List Arg) :
    Refines h number (fun e => ([],e.throw format (.path e.fieldPath.asString::args)))
      (throwAt format args : Encode T O Doc) := fun _ he _ => ⟨rfl,he⟩

variable {f : Append} {g : Encode T O Doc}

theorem Refines.element (hf : Refines h number f g) (key : CString) :
    Refines h number (fun e => f (e.writeItem key)) (element key g) := fun e he hout =>
  hf { e with fieldPath := e.fieldPath.writeItemAtCurrentLevel key } he hout

theorem Refines.nested (hf : Refines h number f g) (type : ItemType) :
    Refines h number (Phongo.guarded none type f) (nested type g) := fun e he hout => by
  obtain ⟨hr,hu⟩ :=
    hf { e with fieldPath := (e.fieldPath.writeTypeAtCurrentLevel type).enter } he hout
  refine ⟨?_,hu⟩
  have hview : (view number e).enter type =
      view number { e with fieldPath := (e.fieldPath.writeTypeAtCurrentLevel type).enter } := rfl
  simp only [Phongo.guarded,Encoder.protectionBegin,hview,hr]
  rfl

theorem Refines.document (hf : Refines h number f g) (key : CString) :
    Refines h number (Phongo.appendDocument key f) (appendDocument key g) := fun e he hout => by
  obtain ⟨hr,hu⟩ := hf e he hout
  refine ⟨?_,hu⟩
  rw [Phongo.appendDocument,hr]
  rfl

theorem Refines.arrayElement (hf : Refines h number f g) (key : CString) :
    Refines h number (Phongo.appendArray key f) (appendArray key g) := fun e he hout => by
  obtain ⟨hr,hu⟩ := hf e he hout
  refine ⟨?_,hu⟩
  rw [Phongo.appendArray,hr]
  rfl

theorem Refines.odm (hf : Refines h number f g) (ce : ClassEntry) :
    Refines h number (fun e =>
      let r := f e
      if ce.isPersistable then (odmField ce::r.1,r.2) else r) (withOdm ce g) := fun e he hout => by
  obtain ⟨hr,hu⟩ := hf e he hout
  have heq : withOdm ce g e =
      (if ce.isPersistable then odmField ce::(g e).1 else (g e).1,(g e).2) := rfl
  refine ⟨?_,by rw [heq]; exact hu⟩
  simp only [hr,heq]
  split <;> rfl

theorem RefinesLoop.close {f : Phongo.Loop} {g : Loop T O} (hf : RefinesLoop h number f g)
    (L : Libbson) (flags : Flags) :
    Refines h number (Phongo.closeFields L f flags) (closeFields L g flags) := by
  intro e he hout
  have heq : closeFields L g flags e =
      (if (g flags.addId e).1.aborted then pure (g flags.addId e).1.fields
        else finishFields L flags.returnId (g flags.addId e).1 : Encode T O Doc)
        (g flags.addId e).2 := rfl
  rw [heq] at hout ⊢
  have hlast : (g flags.addId e).2.ranOut = false := by
    revert hout
    split
    · exact id
    · exact id
  obtain ⟨hr,hu⟩ := hf flags.addId e he hlast
  simp only [Phongo.closeFields,hr]
  split
  · exact ⟨rfl,hu⟩
  · refine ⟨?_,hu⟩
    simp only [Phongo.finishFields,finishFields,onOutput,view]
    split <;> split <;> rfl

theorem RefinesLoop.empty : RefinesLoop h number (fun addId e => ⟨[],addId,false,e⟩)
    (emptyLoop : Loop T O) := fun _ _ he _ => ⟨rfl,he⟩

theorem RefinesLoop.cons {f' : Phongo.Loop} {g' : Loop T O} (hf : Refines h number f g)
    (hf' : RefinesLoop h number f' g') (hg' : ∀ addId, Records (g' addId)) (inner : Bool) :
    ∀ e, Unflagged h e →
      let step : Encode T O LoopEnd := do
        let fields ← g
        let r ← g' inner
        return { r with fields := fields ++ r.fields }
      (step e).2.ranOut = false →
      (let r := f (view number e)
        let s := f' inner r.2
        ({ s with fields := r.1 ++ s.fields } : Looped)) =
          ⟨(step e).1.fields,(step e).1.addId,(step e).1.aborted,view number (step e).2⟩ ∧
        Unflagged h (step e).2 := by
  intro e he step hout
  have hstep : step e = (let r := g' inner (g e).2
      ({ r.1 with fields := (g e).1 ++ r.1.fields },r.2)) := rfl
  rw [hstep] at hout ⊢
  obtain ⟨hr,hu⟩ := hf e he ((hg' inner).lasted hout)
  obtain ⟨hr',hu'⟩ := hf' inner (g e).2 hu hout
  simp only [hr,hr']
  exact ⟨trivial,hu'⟩

/-- The loops over one table, its values given by the heap and by trees. -/
theorem appendAll_refines {V : Type} {L : Libbson} {U : Userland} (tree : V → Zval)
    (append : CString → V → Encode T O Doc) (hrecords : ∀ key v, Records (append key v))
    (fromProperties skip : Bool) (els : List (Key × V))
    (hel : ∀ key, ∀ e ∈ els, Refines h number
      (fun s => Phongo.appendValue L U key (tree e.2) (s.writeItem key)) (append key e.2)) :
    RefinesLoop h number
        (Phongo.appendAll L U fromProperties skip (els.map fun e => (e.1,tree e.2)))
        (appendAll append fromProperties skip els) ∧
      ∀ addId, Records (appendAll append fromProperties skip els addId) := by
  have hloop : ∀ addId, Records (appendAll append fromProperties skip els addId) := fun addId =>
    (recording_congruence.appendAll fromProperties skip els
      (fun key e _ => ⟨hrecords key e.2,hrecords key e.2⟩) addId).1
  refine ⟨?_,hloop⟩
  induction els with
  | nil => exact RefinesLoop.empty
  | cons e els ih =>
    obtain ⟨key,v⟩ := e
    have hrest : ∀ addId, Records (appendAll append fromProperties skip els addId) :=
      fun addId => (recording_congruence.appendAll fromProperties skip els
        (fun key e _ => ⟨hrecords key e.2,hrecords key e.2⟩) addId).1
    have ih' := ih (fun key e he => hel key e (List.mem_cons_of_mem _ he)) hrest
    intro addId e he
    simp only [List.map_cons,Phongo.appendAll,appendAll]
    cases hk : inspectKey fromProperties skip key with
    | skip => exact ih' addId e he
    | abort => exact fun _ => ⟨rfl,he⟩
    | append name =>
      exact RefinesLoop.cons (hel name (key,v) List.mem_cons_self) ih' hrest _ e he

theorem keysAreIndices_unfold {V : Type} (tree : V → Zval) (n : ℕ) (els : List (Key × V)) :
    Phongo.keysAreIndices n (els.map fun e => (e.1,tree e.2)) = keysAreIndices n els := by
  induction els generalizing n with
  | nil => rfl
  | cons e els ih =>
    obtain ⟨key,v⟩ := e
    cases key <;> simp [Phongo.keysAreIndices,keysAreIndices,ih]

theorem plainZvals_eq (els : List (Key × Plain)) :
    plainZvals els = els.map fun e => (e.1,plainZval e.2) := by
  induction els with
  | nil => rfl
  | cons e els ih => simp [plainZvals,ih]

theorem appendPlains_eq (L : Libbson) (skip : Bool) (els : List (Key × Plain)) :
    (appendPlains L skip els : Loop T O) =
      appendAll (fun key p => element key (appendPlain L key p)) false skip els := by
  induction els with
  | nil => rw [appendPlains,appendAll]
  | cons e els ih =>
    obtain ⟨key,p⟩ := e
    funext addId
    rw [appendPlains,appendAll,ih]

theorem plain_refines (L : Libbson) (U : Userland) :
    (∀ p key, Refines h number (Phongo.appendValue L U key (plainZval p))
      (appendPlain L key p : Encode T O Doc)) ∧
    (∀ els : List (Key × Plain), ∀ e ∈ els, ∀ key,
      Refines h number (Phongo.appendValue L U key (plainZval e.2))
        (appendPlain L key e.2 : Encode T O Doc)) := by
  refine Plain.induction ?leaf ?immutable ?nil ?cons
  case leaf =>
    intro p hp key
    cases p with
    | immutable els => exact absurd rfl (hp els)
    | long n =>
      intro e he _
      have hint : (appendPlain L key (.long n) : Encode T O Doc) = pure (intElement key n) := by
        rw [appendPlain]
      rw [plainZval,Phongo.appendValue,hint]
      refine ⟨?_,he⟩
      unfold appendInt intElement
      split <;> rfl
    | string s =>
      rw [plainZval,Phongo.appendValue,appendPlain,appendString]
      cases hs : L.utf8Validate s true with
      | true =>
        have hf : Phongo.appendString L key s = fun e => ([(key,.utf8 s)],e) := by
          funext e
          simp [Phongo.appendString,hs]
        rw [hf]
        exact pure_refines _
      | false =>
        have hf : Phongo.appendString L key s = fun e =>
            ([],e.throw "Detected invalid UTF-8 for field path \"%s\": %s"
              [.path e.fieldPath.asString,.bytes (cstr s)]) := by
          funext e
          simp [Phongo.appendString,hs]
        rw [hf]
        exact throwAt_refines _ _
    | resource => exact throwAt_refines _ _
    | _ => exact pure_refines _
  case immutable =>
    intro els ih key
    have hloop := (appendAll_refines (L:=L) (U:=U) (h:=h) plainZval
      (fun key p => element key (appendPlain (T:=T) (O:=O) L key p))
      (fun key p => (recording_congruence.element key ((recording_congruence.plain L).1 p key)).1)
      false false els fun key e he => (ih e he key).element key).1
    have hbody := hloop.close L .none
    rw [← plainZvals_eq,← appendPlains_eq] at hbody
    have hkeys : Phongo.keysAreIndices 0 (plainZvals els) = keysAreIndices 0 els := by
      rw [plainZvals_eq,keysAreIndices_unfold]
    rw [plainZval,Phongo.appendValue,appendPlain]
    simp only [hkeys]
    cases keysAreIndices 0 els with
    | true => exact (hbody.arrayElement key).nested .array
    | false => exact (hbody.document key).nested .document
  case nil => exact fun e he => absurd he List.not_mem_nil
  case cons => exact fun key p els ihp ih => List.forall_mem_cons.mpr ⟨ihp,ih⟩

theorem plains_refines (L : Libbson) (U : Userland) (skip : Bool) (els : List (Key × Plain)) :
    RefinesLoop h number (Phongo.appendAll L U false skip (plainZvals els))
      (appendPlains L skip els : Loop T O) := by
  rw [plainZvals_eq,appendPlains_eq]
  exact (appendAll_refines plainZval (fun key p => element key (appendPlain (T:=T) (O:=O) L key p))
    (fun key p => (recording_congruence.element key ((recording_congruence.plain L).1 p key)).1)
    false skip els fun key e he => ((plain_refines L U).2 els e he key).element key).1

end Simulation

section Values
variable {h : PhpHeap T O R} {number : T → ℕ} {child : HeapValue T O → Zval}

/-- What `bsonSerialize()` yields, as a tree. -/
def returnedZval (h : PhpHeap T O R) (number : T → ℕ) (child : HeapValue T O → Zval) (k : ℕ) :
    Returned T O → Zval
  | .threw ids => .undef ids
  | .value v => unfoldValue h number child k v

theorem unfoldValue_user {o : O} {ce : ClassEntry} {t : T} {returned : Returned T O}
    (ho : h.objects o = .user ce t returned) (k : ℕ) :
    unfoldValue h number child (k+1) (.object o) =
      .object ce (some (number t)) (unfoldTable h child t)
        (returnedZval h number child k returned) := by
  cases returned <;> simp [unfoldValue,ho,returnedZval]

variable (number child) in
theorem unfoldValue_table {o : O} {ce : ClassEntry} {t : T} {returned : Returned T O}
    (ho : h.objects o = .user ce t returned) (k : ℕ) :
    ∃ z, unfoldValue h number child k (.object o) =
      .object ce (some (number t)) (unfoldTable h child t) z := by
  cases k with
  | zero => exact ⟨.null,by simp [unfoldValue,ho]⟩
  | succ k => exact ⟨_,unfoldValue_user ho k⟩

theorem unfoldValue_value {o : O} (k : ℕ) :
    (∀ obj t, h.objects o = .bson obj t →
      unfoldValue h number child k (.object o) = .bson obj) ∧
    (∀ id t, h.objects o = .cursorId id t →
      unfoldValue h number child k (.object o) = .cursorId id) := by
  cases k <;> exact ⟨fun obj t ho => by simp [unfoldValue,ho],fun id t ho => by simp [unfoldValue,ho]⟩

variable (h number child) in
/-- A tree looks like the value it is the unfolding of. -/
theorem unfoldValue_looks (k : ℕ) (v : HeapValue T O) :
    (unfoldValue h number child k v).isUndef = false ∧
    (unfoldValue h number child k v).isArrayOrStdClass = isArrayOrStdClass h v ∧
    (unfoldValue h number child k v).isBsonArray = isBsonArray h v ∧
    (unfoldValue h number child k v).classOrTypeName = classOrTypeName h v := by
  cases v with
  | plain p =>
    cases p with
    | immutable els =>
      refine ⟨by simp [unfoldValue,plainZval,Zval.isUndef],
        by simp [unfoldValue,plainZval,Zval.isArrayOrStdClass,isArrayOrStdClass],?_,
        by simp [unfoldValue,plainZval,Zval.classOrTypeName,classOrTypeName,typeName]⟩
      simp only [unfoldValue,plainZval,Zval.isBsonArray,isBsonArray,plainZvals_eq,
        keysAreIndices_unfold]
    | _ => simp [unfoldValue,plainZval,Zval.isUndef,Zval.isArrayOrStdClass,isArrayOrStdClass,
        Zval.isBsonArray,isBsonArray,Zval.classOrTypeName,classOrTypeName,typeName]
  | array t =>
    simp only [unfoldValue,Zval.isUndef,Zval.isArrayOrStdClass,isArrayOrStdClass,
      Zval.isBsonArray,isBsonArray,Zval.classOrTypeName,classOrTypeName,unfoldTable,
      keysAreIndices_unfold (fun slot => slotZval h child slot),and_self]
  | object o =>
    cases ho : h.objects o with
    | bson obj t =>
      rw [(unfoldValue_value k).1 obj t ho]
      simp [Zval.isUndef,Zval.isArrayOrStdClass,isArrayOrStdClass,Zval.isBsonArray,isBsonArray,
        Zval.classOrTypeName,classOrTypeName,ho]
    | cursorId id t =>
      rw [(unfoldValue_value k).2 id t ho]
      simp [Zval.isUndef,Zval.isArrayOrStdClass,isArrayOrStdClass,Zval.isBsonArray,isBsonArray,
        Zval.classOrTypeName,classOrTypeName,ho]
    | user ce t returned =>
      obtain ⟨z,hz⟩ := unfoldValue_table number child ho k
      rw [hz]
      simp [Zval.isUndef,Zval.isArrayOrStdClass,isArrayOrStdClass,Zval.isBsonArray,isBsonArray,
        Zval.classOrTypeName,classOrTypeName,ho]

end Values

end Graph
end Phongo
