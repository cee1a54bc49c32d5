import Mathlib.Tactic.Common
import Phongo.Bson.Pending
import Phongo.Cursor
import Phongo.Graph.Encode

/-! Relations that hold between the encoder's functions as soon as they hold between the steps
they are made of. Every property of a whole encoding is one such relation. -/
namespace Phongo

/-- Induction on immutable arrays. -/
theorem Plain.induction {P : Plain → Prop} {Q : List (Key × Plain) → Prop}
    (leaf : ∀ p, (∀ els, p ≠ .immutable els) → P p) (immutable : ∀ els, Q els → P (.immutable els))
    (nil : Q []) (cons : ∀ key p els, P p → Q els → Q ((key,p)::els)) :
    (∀ p, P p) ∧ ∀ els, Q els := by
  have hP : ∀ p, P p := fun p => by
    induction p using Plain.rec (motive_2:=Q) (motive_3:=fun e => P e.2) with
    | immutable els ih => exact immutable els ih
    | nil => exact nil
    | cons e els ihe ih => exact cons e.1 e.2 els ihe ih
    | mk key p ih => exact ih
    | _ => exact leaf _ fun _ => Plain.noConfusion
  refine ⟨hP,fun els => ?_⟩
  induction els with
  | nil => exact nil
  | cons e els ih => exact cons e.1 e.2 els (hP e.2) ih

/-- The exception of `php_phongo_bson_append` that reports a recursion. -/
def Exception.IsDetectedRecursion (x : Exception) : Prop :=
  ∃ path, x = .phongo .unexpectedValue Graph.detectedRecursion [.path path]

theorem Exception.OfDecoding.not_isDetectedRecursion {x : Exception} (h : x.OfDecoding) :
    ¬ x.IsDetectedRecursion := by
  rintro ⟨path,rfl⟩
  have hunder := h.2 (CString.lit "k")
  simp [Exception.under,Arg.under] at hunder

def HeapValue.isPlain {T O : Type} : HeapValue T O → Bool
  | .plain _ => true
  | .array _ | .object _ => false

namespace Graph
variable {T O R V α β : Type}

def Output.Quiet (out out' : Output) : Prop :=
  ThrowsOf (fun x => ¬ x.IsDetectedRecursion) out.exceptions out'.exceptions

/-- Two steps with one result; the flag says that the slot of the field path at the current level
has been written. -/
abbrev StepRelation (T O : Type) := ∀ α : Type, Bool → Encode T O α → Encode T O α → Prop

theorem quiet_throw {format : String} (args : List Arg) (h : format ≠ detectedRecursion)
    (out : Output) : Output.Quiet out (Output.throw format args out) := by
  refine ThrowsOf.single ?_ _
  rintro ⟨path,hx⟩
  cases hx
  exact h rfl

structure Congruence (S : StepRelation T O) : Prop where
  pure : ∀ {α} written (a : α), S α written (pure a) (pure a)
  bind : ∀ {α β written} {f f' : Encode T O α} {g g' : α → Encode T O β}, S α written f f' →
    (∀ a, S β false (g a) (g' a)) → S β written (f >>= g) (f' >>= g')
  weaken : ∀ {α} {f f' : Encode T O α}, S α false f f' → S α true f f'
  onOutput : ∀ {α β written} (f : Output → α × Output) {g g' : α → Encode T O β},
    (∀ out, Output.Quiet out (f out).2) → (∀ a, S β written (g a) (g' a)) →
    S β written (onOutput f >>= g) (onOutput f >>= g')
  throwAt : ∀ format args, format ≠ detectedRecursion →
    S Doc true (throwAt format args) (throwAt format args)
  element : ∀ {f f' : Encode T O Doc} key, S Doc true f f' →
    S Doc false (element key f) (element key f')
  nested : ∀ {f f' : Encode T O Doc} type, S Doc false f f' →
    S Doc true (nested type f) (nested type f')

section Steps
variable {S : StepRelation T O} (C : Congruence S)
include C

theorem Congruence.written {f f' : Encode T O α} (written : Bool) (h : S α false f f') :
    S α written f f' := by
  cases written
  · exact h
  · exact C.weaken h

theorem Congruence.output (f : Output → α × Output) (hquiet : ∀ out, Output.Quiet out (f out).2)
    (written : Bool) : S α written (Graph.onOutput f) (Graph.onOutput f) := by
  have h := C.onOutput f hquiet fun a => C.pure written a
  rwa [bind_pure] at h

theorem Congruence.throw {format : String} (args : List Arg) (h : format ≠ detectedRecursion)
    (written : Bool) : S Doc written (throw format args) (throw format args) :=
  C.output _ (fun out => quiet_throw args h out) written

theorem Congruence.finishFields (L : Libbson) (returnId : Bool) (r : LoopEnd) (written : Bool) :
    S Doc written (finishFields L returnId r) (finishFields L returnId r) := by
  refine C.output _ (fun out => ?_) written
  dsimp only
  split <;> split <;> exact ⟨[],rfl,fun _ hx => absurd hx List.not_mem_nil⟩

theorem Congruence.closeFields (L : Libbson) {loop loop' : Loop T O} (flags : Flags)
    (h : ∀ addId, S LoopEnd false (loop addId) (loop' addId)) :
    S Doc false (closeFields L loop flags) (closeFields L loop' flags) := by
  refine C.bind (h flags.addId) fun r => ?_
  split
  · exact C.pure _ _
  · exact C.finishFields L _ r _

theorem Congruence.appendCompound {f f' : Encode T O Doc} (key : CString) (isArray : Bool)
    (h : S Doc false f f') : S Doc false (appendCompound key isArray f)
      (appendCompound key isArray f') := by
  cases isArray <;> exact C.bind h fun _ => C.pure _ _

theorem Congruence.appendAll {append append' : CString → V → Encode T O Doc}
    (fromProperties skipOdmField : Bool) (els : List (Key × V)) :
    (∀ key, ∀ e ∈ els, S Doc false (append key e.2) (append' key e.2)) → ∀ addId,
    S LoopEnd false (appendAll append fromProperties skipOdmField els addId)
      (appendAll append' fromProperties skipOdmField els addId) := by
  intro h
  induction els with
  | nil => exact fun addId => C.pure _ _
  | cons e rest ih =>
    obtain ⟨key,v⟩ := e
    intro addId
    have hrest := ih fun key e he => h key e (List.mem_cons_of_mem _ he)
    unfold Graph.appendAll
    split
    · exact hrest addId
    · exact C.bind (C.throw _ (by decide) _) fun _ => C.pure _ _
    · rename_i name _
      refine C.bind (h name (key,v) List.mem_cons_self) fun _ => ?_
      exact C.bind (hrest _) fun _ => C.pure _ _

theorem Congruence.appendString (L : Libbson) (key : CString) (s : Bytes) :
    S Doc true (appendString L key s) (appendString L key s) := by
  unfold Graph.appendString
  split
  · exact C.pure _ _
  · exact C.throwAt _ _ (by decide)

theorem Congruence.plain (L : Libbson) :
    (∀ p key, S Doc true (appendPlain L key p) (appendPlain L key p)) ∧
    (∀ els skipOdmField addId, S LoopEnd false (appendPlains L skipOdmField els addId)
      (appendPlains L skipOdmField els addId)) := by
  refine Plain.induction ?leaf ?immutable ?nil ?cons
  case leaf =>
    intro p hp key
    cases p with
    | string s => exact C.appendString L key s
    | resource => exact C.throwAt _ _ (by decide)
    | immutable els => exact absurd rfl (hp els)
    | _ => exact C.pure _ _
  case immutable =>
    intro els ih key
    rw [appendPlain]
    exact C.nested _ (C.appendCompound key _ (C.closeFields L .none (ih false)))
  case nil =>
    intro skipOdmField addId
    exact C.pure _ _
  case cons =>
    intro key p rest ihp ih skipOdmField addId
    rw [appendPlains]
    split
    · exact ih skipOdmField addId
    · exact C.bind (C.throw _ (by decide) _) fun _ => C.pure _ _
    · rename_i name _
      refine C.bind (C.element name (ihp name)) fun _ => ?_
      exact C.bind (ih skipOdmField _) fun _ => C.pure _ _

theorem Congruence.callBsonSerialize (returned : Returned T O) (written : Bool) :
    S _ written (callBsonSerialize returned) (callBsonSerialize returned) := by
  unfold Graph.callBsonSerialize
  cases returned with
  | threw ids =>
    refine C.output _ (fun out => ?_) written
    split
    · rename_i he
      have huser : Output.Quiet { out with exceptions := [] } { out with
          exceptions := thrownBy ids } := ThrowsOf.userland (fun _ ⟨_,hx⟩ => nomatch hx) ids
      rw [← he] at huser
      exact huser
    · exact ThrowsOf.refl _
  | value v =>
    refine C.output _ (fun out => ?_) written
    exact ThrowsOf.refl _

theorem Congruence.serialized (h : PhpHeap T O R) (ce : ClassEntry) (returned : Returned T O)
    {encode encode' : HeapValue T O → Encode T O Doc}
    (hencode : ∀ v, S Doc false (encode v) (encode' v)) :
    S Doc false (serialized h ce returned encode) (serialized h ce returned encode') := by
  refine C.bind (C.callBsonSerialize returned _) fun v => ?_
  cases v with
  | none => exact C.pure _ _
  | some v =>
    dsimp only
    split
    · exact hencode v
    · exact C.throw _ (by decide) _

theorem Congruence.withOdm (ce : ClassEntry) {f f' : Encode T O Doc} (h : S Doc false f f') :
    S Doc false (withOdm ce f) (withOdm ce f') := C.bind h fun _ => C.pure _ _

end Steps

section Objects
variable {h : PhpHeap T O R} {L : Libbson} {U : Userland} {S S' : StepRelation T O}
  {append append' : CString → HeapValue T O → Encode T O Doc}

/-- `HASH_OF` of a value object, or NULL. -/
def bsonTable (L : Libbson) (table : T) : BsonObject → Option T
  | .javascript _ (some scope) => if acceptsAll L scope then some table else none
  | _ => some table

def tableOf (h : PhpHeap T O R) (L : Libbson) : HeapValue T O → Option T
  | .plain _ => none
  | .array t => some t
  | .object o =>
    match h.objects o with
    | .bson obj table => bsonTable L table obj
    | .cursorId _ table | .user _ table _ => some table

def decodeScope (L : Libbson) (U : Userland) : BsonObject → Output → Output
  | .javascript _ (some scope),out => { out with
    exceptions := (bsonToZvalEx L U (.read scope true) BsonState.init out.exceptions).exceptions
    scopePaths := out.scopePaths ++ renderedEx L U (.read scope true) BsonState.init out.exceptions }
  | _,out => out

theorem quiet_decodeScope (obj : BsonObject) (out : Output) :
    Output.Quiet out (decodeScope L U obj out) := by
  cases obj with
  | javascript code scope =>
    cases scope with
    | none => exact ThrowsOf.refl _
    | some scope => exact (decodes_bsonToZvalEx _ _ _).mono fun x hx => hx.not_isDetectedRecursion
  | _ => exact ThrowsOf.refl _

/-- Which table it is does not depend on what happened before. -/
theorem hashOfBson_eq (obj : BsonObject) (table : T) : hashOfBson (O:=O) L U obj table =
    onOutput fun out => (bsonTable L table obj,decodeScope L U obj out) := by
  cases obj with
  | javascript code scope =>
    cases scope with
    | none => rfl
    | some scope =>
      have hok : ∀ eg, (bsonToZvalEx L U (.read scope true) BsonState.init eg).ok =
          acceptsAll L scope := fun eg => by
        cases ha : acceptsAll L scope with
        | true => exact (bsonToZvalEx_fresh ha Typemap.default eg).1
        | false => exact (bsonToZvalRoot_rejects ha true BsonState.init eg).1
      funext e
      simp only [hashOfBson,onOutput,bsonTable,hok,decodeScope]
  | _ => rfl

theorem Congruence.appendSlots (C : Congruence S)
    (happend : ∀ key v, S Doc false (append key v) (append' key v))
    (fromProperties skipOdmField : Bool) (t : T) (addId : Bool) :
    S LoopEnd false (appendSlots h append fromProperties skipOdmField t addId)
      (appendSlots h append' fromProperties skipOdmField t addId) :=
  C.appendAll fromProperties skipOdmField _ (fun key e _ => happend key (deref h e.2)) addId

theorem Congruence.appendTable (C : Congruence S)
    (happend : ∀ key v, S Doc false (append key v) (append' key v)) (skipOdmField : Bool)
    (v : HeapValue T O) (addId : Bool) :
    S LoopEnd false (appendTable h L append skipOdmField v addId)
      (appendTable h L append' skipOdmField v addId) := by
  cases v with
  | plain p =>
    cases p with
    | immutable els => exact (C.plain L).2 els skipOdmField addId
    | _ => exact C.pure _ _
  | array t => exact C.appendSlots happend false skipOdmField t addId
  | object o =>
    rw [Graph.appendTable,Graph.appendTable]
    cases h.objects o with
    | bson | cursorId => exact C.pure _ _
    | user ce table returned => exact C.appendSlots happend false skipOdmField table addId

theorem Congruence.internal (C : Congruence S)
    (happend : ∀ key v, S Doc false (append key v) (append' key v)) (flags : Flags)
    (v : HeapValue T O) :
    S Doc false (internal h L append flags v) (internal h L append' flags v) := by
  cases v with
  | plain p =>
    cases p with
    | immutable els => exact C.closeFields L flags ((C.plain L).2 els false)
    | _ => exact C.pure _ _
  | array t => exact C.closeFields L flags (C.appendSlots happend false false t)
  | object o =>
    rw [Graph.internal,Graph.internal]
    split
    · exact C.throw _ (by decide) _
    · refine C.closeFields L flags fun addId => ?_
      exact C.bind (C.element _ (C.pure _ _)) fun _ => C.pure _ _
    · rename_i ce table returned _
      split
      · refine C.serialized h ce returned fun v => ?_
        exact C.withOdm ce (C.closeFields L flags (C.appendTable happend ce.isPersistable v))
      · split
        · exact C.throw _ (by decide) _
        · exact C.closeFields L flags (C.appendSlots happend true false table)

theorem Congruence.appendObject (C : Congruence S)
    (happend : ∀ key v, S Doc false (append key v) (append' key v)) (key : CString)
    (ce : ClassEntry) (table : T) (returned : Returned T O) :
    S Doc false (appendObject h L append key ce table returned)
      (appendObject h L append' key ce table returned) := by
  unfold Graph.appendObject
  split
  · split
    · refine C.serialized h ce returned fun v => ?_
      split
      · exact C.bind (C.withOdm ce (C.internal happend .none v)) fun _ => C.pure _ _
      · exact C.bind (C.internal happend .none v) fun _ => C.pure _ _
    · exact C.throw _ (by decide) _
  · refine C.bind (C.closeFields L .none (C.appendSlots happend true false table)) fun _ => ?_
    exact C.pure _ _

variable [DecidableEq T] {protects protects' : Bool}

/-- What holds between two bodies under recursion protection, and then between the two steps.
A body that is protected by no table encodes no other value. -/
def Guards (h : PhpHeap T O R) (L : Libbson) (protects protects' : Bool)
    (S' S : StepRelation T O) : Prop :=
  ∀ v type f f', v.isPlain = false → S' Doc false f f' →
    (tableOf h L v = none → ∃ fields, f = Pure.pure fields ∧ f' = Pure.pure fields) →
    S Doc true (guarded protects v (tableOf h L v) type f)
      (guarded protects' v (tableOf h L v) type f')

theorem Congruence.appendValue (C : Congruence S) (C' : Congruence S')
    (hguards : Guards h L protects protects' S' S)
    (happend : ∀ key v, S' Doc false (append key v) (append' key v)) (key : CString)
    (v : HeapValue T O) :
    S Doc true (appendValue h L U append protects key v)
      (appendValue h L U append' protects' key v) := by
  cases v with
  | plain p => exact (C.plain L).1 p key
  | array t =>
    refine hguards (.array t) _ _ _ rfl ?_ fun hnone => by simp [tableOf] at hnone
    exact C'.appendCompound key _ (C'.closeFields L .none (C'.appendSlots happend false false t))
  | object o =>
    have hguard := hguards (.object o)
    rw [tableOf] at hguard
    rw [Graph.appendValue,Graph.appendValue]
    cases hobject : h.objects o with
    | bson obj table =>
      rw [hobject] at hguard
      have hstep := C.onOutput (fun out => ((),decodeScope L U obj out))
        (quiet_decodeScope obj) fun _ => hguard .document (Pure.pure [(key,bsonObjectValue L obj)])
          (Pure.pure [(key,bsonObjectValue L obj)]) rfl (C'.pure _ _) fun _ => ⟨_,rfl,rfl⟩
      dsimp only
      rw [hashOfBson_eq]
      exact hstep
    | cursorId id table =>
      rw [hobject] at hguard
      exact hguard _ _ _ rfl (C'.pure _ _) fun _ => ⟨_,rfl,rfl⟩
    | user ce table returned =>
      rw [hobject] at hguard
      refine hguard _ _ _ rfl (C'.appendObject happend key ce table returned) fun hnone => ?_
      simp at hnone

end Objects

section Guarded

/-- Recursion protection of the tables `flag` begins around `v`. -/
def protect (flag : List T) (v : HeapValue T O) (e : GraphEncoder T O) : GraphEncoder T O :=
  { e with
    recursive := flag ++ e.recursive
    around := v::e.around }

def unprotect [DecidableEq T] (flag : List T) (e : GraphEncoder T O) : GraphEncoder T O :=
  { e with
    recursive := flag.foldl List.erase e.recursive
    around := e.around.tail }

def flagFor (protects : Bool) (ht : Option T) : List T := if protects then ht.toList else []

/-- Either the table has been flagged already, or the body runs with it flagged. -/
theorem guarded_cases [DecidableEq T] {P : Doc × GraphEncoder T O → Prop} {protects : Bool}
    {v : HeapValue T O} {ht : Option T} {type : ItemType} {f : Encode T O Doc}
    (e : GraphEncoder T O)
    (detected : ∀ t, t ∈ flagFor protects ht → t ∈ (GraphEncoder.meet e v ht).recursive →
      P (throwAt detectedRecursion [] (GraphEncoder.meet e v ht)))
    (entered : (∀ t ∈ flagFor protects ht, t ∉ (GraphEncoder.meet e v ht).recursive) →
      let r := nested type f (protect (flagFor protects ht) v (GraphEncoder.meet e v ht))
      P (r.1,unprotect (flagFor protects ht) r.2)) : P (guarded protects v ht type f e) := by
  by_cases hflag : (flagFor protects ht).any (· ∈ (GraphEncoder.meet e v ht).recursive) = true
  · obtain ⟨t,ht',hrec⟩ := List.any_eq_true.mp hflag
    have hguarded : guarded protects v ht type f e =
        throwAt detectedRecursion [] (GraphEncoder.meet e v ht) := if_pos hflag
    rw [hguarded]
    exact detected t ht' (of_decide_eq_true hrec)
  · have hguarded : guarded protects v ht type f e =
        (let r := nested type f (protect (flagFor protects ht) v (GraphEncoder.meet e v ht))
        (r.1,unprotect (flagFor protects ht) r.2)) := if_neg hflag
    rw [hguarded]
    refine entered fun t ht' hrec => hflag ?_
    exact List.any_eq_true.mpr ⟨t,ht',decide_eq_true hrec⟩

@[simp] theorem fieldPath_meet (e : GraphEncoder T O) (v : HeapValue T O) (ht : Option T) :
    (GraphEncoder.meet e v ht).fieldPath = e.fieldPath := by
  unfold GraphEncoder.meet
  split <;> rfl

@[simp] theorem recursive_meet (e : GraphEncoder T O) (v : HeapValue T O) (ht : Option T) :
    (GraphEncoder.meet e v ht).recursive = e.recursive := by
  unfold GraphEncoder.meet
  split <;> rfl

@[simp] theorem around_meet (e : GraphEncoder T O) (v : HeapValue T O) (ht : Option T) :
    (GraphEncoder.meet e v ht).around = e.around := by
  unfold GraphEncoder.meet
  split <;> rfl

@[simp] theorem rendered_meet (e : GraphEncoder T O) (v : HeapValue T O) (ht : Option T) :
    (GraphEncoder.meet e v ht).rendered = e.rendered := by
  unfold GraphEncoder.meet
  split <;> rfl

@[simp] theorem ranOut_meet (e : GraphEncoder T O) (v : HeapValue T O) (ht : Option T) :
    (GraphEncoder.meet e v ht).ranOut = e.ranOut := by
  unfold GraphEncoder.meet
  split <;> rfl

@[simp] theorem output_meet (e : GraphEncoder T O) (v : HeapValue T O) (ht : Option T) :
    (GraphEncoder.meet e v ht).output = e.output := by
  unfold GraphEncoder.meet
  split <;> rfl

theorem met_meet_of_ranOut {e : GraphEncoder T O} (v : HeapValue T O) (ht : Option T)
    (h : e.ranOut = true) : (GraphEncoder.meet e v ht).met = e.met := by
  simp [GraphEncoder.meet,h]

theorem met_meet {e : GraphEncoder T O} (v : HeapValue T O) (ht : Option T)
    (h : e.ranOut = false) : (GraphEncoder.meet e v ht).met = e.met ++ [⟨e.around,v,ht⟩] := by
  simp [GraphEncoder.meet,h]

theorem met_prefix_meet (e : GraphEncoder T O) (v : HeapValue T O) (ht : Option T) :
    e.met <+: (GraphEncoder.meet e v ht).met := by
  cases h : e.ranOut with
  | true => simp [met_meet_of_ranOut v ht h]
  | false => simp [met_meet v ht h]

theorem foldl_erase_append [DecidableEq T] (flag ts : List T) :
    flag.foldl List.erase (flag ++ ts) = ts := by
  induction flag with
  | nil => rfl
  | cons t flag ih => simpa using ih

end Guarded

end Graph
end Phongo
