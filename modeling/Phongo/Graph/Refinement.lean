import Mathlib.Data.List.Basic
import Mathlib.Tactic.Common
import Phongo.Graph.Unfolding

/-! The encoder on a heap refines the encoder on trees: from any state, and as long as the fuel
lasts, each step on a value does what the step on its unfolding does. -/
namespace Phongo
namespace Graph
variable {T O R : Type} {h : PhpHeap T O R} {number : T → ℕ} {child : HeapValue T O → Zval}
  {L : Libbson} {U : Userland}

section Steps
variable {f : Append} {g : Encode T O Doc}

theorem Refines.compound (hf : Refines h number f g) (key : CString) (isArray : Bool) :
    Refines h number
      (if isArray then Phongo.appendArray key f else Phongo.appendDocument key f)
      (appendCompound key isArray g) := by
  cases isArray with
  | true => exact hf.arrayElement key
  | false => exact hf.document key

theorem view_meet (e : GraphEncoder T O) (v : HeapValue T O) (ht : Option T) :
    view number (GraphEncoder.meet e v ht) = view number e := by
  simp only [view,fieldPath_meet,recursive_meet,output_meet]

theorem unflagged_meet {e : GraphEncoder T O} (he : Unflagged h e) (v : HeapValue T O)
    (ht : Option T) : Unflagged h (GraphEncoder.meet e v ht) := fun t hm =>
  he t (by rwa [recursive_meet] at hm)

/-- A table of arrays or userland objects is under protection at both levels. -/
theorem Refines.guarded [DecidableEq T] (hnumber : Function.Injective number)
    (hf : Refines h number f g) (v : HeapValue T O) {t : T} (ht : ¬ IsValueTable h t)
    (type : ItemType) :
    Refines h number (Phongo.guarded (some (number t)) type f)
      (guarded true v (some t) type g) := by
  intro e he
  have hmem : number t ∈ (view number e).protectedTables ↔ t ∈ e.recursive := by
    simp only [view]
    exact List.mem_map_of_injective hnumber
  have hu := unflagged_meet he v (some t)
  refine guarded_cases (P:=fun r => r.2.ranOut = false →
    Phongo.guarded (some (number t)) type f (view number e) = (r.1,view number r.2) ∧
      Unflagged h r.2) e (fun t' ht' hrec => ?_) fun hfree => ?_
  · obtain rfl : t' = t := by simpa [flagFor] using ht'
    have hm := hmem.mpr (by rwa [recursive_meet] at hrec)
    intro hout
    obtain ⟨hthrow,hu'⟩ := throwAt_refines detectedRecursion [] _ hu hout
    rw [view_meet] at hthrow
    simp only [Phongo.guarded,Encoder.protectionBegin,hm,if_true]
    exact ⟨hthrow,hu'⟩
  · have hm : number t ∉ (view number e).protectedTables := fun hn => by
      refine hfree t (by simp [flagFor]) ?_
      rw [recursive_meet]
      exact hmem.mp hn
    intro r hout
    have hflagged : Unflagged h (protect (flagFor true (some t)) v
        (GraphEncoder.meet e v (some t))) := fun t' ht' => by
      rcases List.mem_cons.mp ht' with rfl | ht'
      · exact ht
      · exact hu t' ht'
    obtain ⟨hr,hu'⟩ := hf.nested type _ hflagged hout
    have hview : view number (protect (flagFor true (some t)) v (GraphEncoder.meet e v (some t))) =
        { view number e with protectedTables := number t::(view number e).protectedTables } := by
      rw [← view_meet e v (some t)]
      rfl
    have htree : Phongo.guarded (some (number t)) type f (view number e) =
        (let s := Phongo.guarded none type f (view number (protect (flagFor true (some t)) v
          (GraphEncoder.meet e v (some t))))
        (s.1,s.2.protectionEnd (some (number t)))) := by
      simp only [Phongo.guarded,Encoder.protectionBegin,hm,if_false,hview]
      rfl
    refine ⟨?_,fun t' ht' => hu' t' (List.mem_of_mem_erase ht')⟩
    rw [htree,hr]
    simp only [Encoder.protectionEnd,unprotect,view,flagFor,if_true,Option.toList,List.foldl_cons,
      List.foldl_nil,List.map_erase hnumber]
    rfl

/-- A value object is found unprotected, and nothing is encoded below it. -/
theorem element_refines [DecidableEq T] (v : HeapValue T O) {ht : Option T}
    (htable : ∀ t ∈ ht, IsValueTable h t) (key : CString) (b : BsonValue) :
    Refines h number (Phongo.guarded none .document (appendElement key b))
      (guarded true v ht .document (pure [(key,b)])) := by
  intro e he
  refine guarded_cases (P:=fun r => r.2.ranOut = false →
    Phongo.guarded none .document (appendElement key b) (view number e) = (r.1,view number r.2) ∧
      Unflagged h r.2) e (fun t ht' hrec => ?_) fun _ => ?_
  · have hm : t ∈ e.recursive := by rwa [recursive_meet] at hrec
    exact absurd (htable t (by simpa [flagFor] using ht')) (he t hm)
  · intro r _
    have hrec : (unprotect (flagFor true ht) r.2).recursive = e.recursive := by
      simp only [unprotect,r,nested,protect]
      rw [show ((pure [(key,b)] : Encode T O Doc) _).2.recursive =
        flagFor true ht ++ (GraphEncoder.meet e v ht).recursive from rfl,foldl_erase_append,
        recursive_meet]
    refine ⟨?_,fun t ht' => he t (by rwa [hrec] at ht')⟩
    rw [← view_meet e v ht]
    simp only [Phongo.guarded,Encoder.protectionBegin,appendElement]
    refine Prod.ext rfl ?_
    simp only [view,hrec,recursive_meet]
    rfl

end Steps

section Objects
variable {append : CString → HeapValue T O → Encode T O Doc}

/-- `append` refines `php_phongo_bson_append` on the trees of values apart from value objects. -/
structure RefinesAppend (h : PhpHeap T O R) (number : T → ℕ) (child : HeapValue T O → Zval)
    (L : Libbson) (U : Userland) (append : CString → HeapValue T O → Encode T O Doc) : Prop where
  records : ∀ key v, Records (append key v)
  refines : ∀ key v, Apart h v → Refines h number
    (fun e => Phongo.appendValue L U key (child v) (e.writeItem key)) (append key v)

namespace RefinesAppend
variable (A : RefinesAppend h number child L U append) (hsep : Separate h)
include A hsep

theorem slots (fromProperties skip : Bool) (t : T) :
    RefinesLoop h number (Phongo.appendAll L U fromProperties skip (unfoldTable h child t))
      (appendSlots h append fromProperties skip t) := by
  refine (appendAll_refines (slotZval h child)
    (fun key slot => append key (deref h slot)) (fun key slot => A.records key _)
    fromProperties skip (h.elements t) fun key e he => ?_).1
  have hvalue := A.refines key (deref h e.2) (hsep.slots t e he)
  cases hslot : e.2 with
  | value v => simpa [hslot,slotZval,deref] using hvalue
  | reference r =>
    simp only [slotZval,Phongo.appendValue]
    simpa [hslot,deref] using hvalue

theorem table (skip : Bool) (k : ℕ) (v : HeapValue T O) :
    RefinesLoop h number
      (Phongo.appendTable L U false skip (unfoldValue h number child k v))
      (appendTable h L append skip v) := by
  cases v with
  | plain p =>
    cases p with
    | immutable els =>
      simpa [unfoldValue,plainZval,Phongo.appendTable,appendTable] using plains_refines L U skip els
    | _ =>
      simp only [unfoldValue,plainZval,Phongo.appendTable,appendTable]
      exact RefinesLoop.empty
  | array t => simpa [unfoldValue,Phongo.appendTable,appendTable] using A.slots hsep false skip t
  | object o =>
    cases ho : h.objects o with
    | bson obj t =>
      rw [(unfoldValue_value k).1 obj t ho]
      simp only [Phongo.appendTable,appendTable,ho]
      exact RefinesLoop.empty
    | cursorId id t =>
      rw [(unfoldValue_value k).2 id t ho]
      simp only [Phongo.appendTable,appendTable,ho]
      exact RefinesLoop.empty
    | user ce t returned =>
      obtain ⟨z,hz⟩ := unfoldValue_table number child ho k
      rw [hz]
      simp only [Phongo.appendTable,appendTable,ho]
      exact A.slots hsep false skip t

omit A hsep in
/-- A call of `bsonSerialize()` and what becomes of its result. -/
theorem serialized_refines (ce : ClassEntry) (k : ℕ) (returned : Returned T O)
    {f : Zval → Append} {g : HeapValue T O → Encode T O Doc}
    (hf : ∀ v, returned = .value v →
      Refines h number (f (unfoldValue h number child k v)) (g v)) :
    Refines h number (fun e =>
      let (returned,e) := Phongo.callBsonSerialize (returnedZval h number child k returned) e
      if returned.isUndef then ([],e)
      else if !returned.isArrayOrStdClass then ([],Phongo.throwExpectedArray ce returned e)
      else f returned e) (serialized h ce returned g) := by
  intro e he hout
  have hnone : ∀ e', Graph.callBsonSerialize returned e = (none,e') →
      serialized h ce returned g e = ([],e') := fun e' hcall => by
    simp only [serialized,bind,StateT.bind,hcall]
    rfl
  have hsome : ∀ v e', Graph.callBsonSerialize returned e = (some v,e') →
      serialized h ce returned g e =
        (if isArrayOrStdClass h v then g v else Graph.throwExpectedArray h ce v) e' :=
    fun v e' hcall => by
      simp only [serialized,bind,StateT.bind,hcall]
  by_cases hnil : e.output.exceptions = []
  · have hnil' : (view number e).exceptions = [] := hnil
    cases returned with
    | threw ids =>
      have hcall : Graph.callBsonSerialize (.threw ids : Returned T O) e =
          (none,{ e with output := { e.output with exceptions := thrownBy ids } }) := by
        simp [Graph.callBsonSerialize,onOutput,hnil]
      rw [hnone _ hcall]
      simp only [returnedZval,Phongo.callBsonSerialize,hnil',if_true,Zval.isUndef]
      exact ⟨rfl,he⟩
    | value v =>
      have hcall : Graph.callBsonSerialize (.value v : Returned T O) e = (some v,e) := by
        simp [Graph.callBsonSerialize,onOutput,hnil]
      rw [hsome _ _ hcall] at hout ⊢
      obtain ⟨hundef,harray,-,hname⟩ := unfoldValue_looks h number child k v
      have htree : Phongo.callBsonSerialize (unfoldValue h number child k v) (view number e) =
          (unfoldValue h number child k v,view number e) := by
        cases hz : unfoldValue h number child k v with
        | undef thrown => simp [hz,Zval.isUndef] at hundef
        | _ => simp [Phongo.callBsonSerialize,hnil']
      simp only [returnedZval,htree,hundef,Bool.false_eq_true,if_false,harray]
      split at hout
      · rename_i hv
        simp only [hv,Bool.not_true,Bool.false_eq_true,if_false,if_true]
        exact hf v rfl e he hout
      · rename_i hv
        simp only [hv,Bool.not_false,if_true,Bool.false_eq_true,if_false]
        refine ⟨?_,he⟩
        rw [Phongo.throwExpectedArray,hname]
        rfl
  · have hnil' : (view number e).exceptions ≠ [] := hnil
    have hcall : Graph.callBsonSerialize returned e = (none,e) := by
      cases returned <;> simp [Graph.callBsonSerialize,onOutput,hnil]
    rw [hnone _ hcall]
    simp only [Phongo.callBsonSerialize,hnil',if_false,Zval.isUndef,if_true]
    exact ⟨trivial,he⟩

/-- `php_phongo_zval_to_bson_internal`, on a value whose `bsonSerialize()` may be called. -/
theorem body (k : ℕ) (flags : Flags) (v : HeapValue T O) :
    Refines h number (Phongo.internal L U (unfoldValue h number child (k+1) v) flags)
      (internal h L append flags v) := by
  cases v with
  | plain p =>
    cases p with
    | immutable els =>
      simp only [unfoldValue,plainZval,Phongo.internal,internal]
      exact (plains_refines L U false els).close L flags
    | _ =>
      simp only [unfoldValue,plainZval,Phongo.internal,internal]
      exact pure_refines []
  | array t =>
    simp only [unfoldValue,Phongo.internal,internal]
    exact (A.slots hsep false false t).close L flags
  | object o =>
    rw [internal]
    cases ho : h.objects o with
    | bson obj t =>
      rw [(unfoldValue_value (k+1)).1 obj t ho]
      exact throw_refines _ _
    | cursorId id t =>
      rw [(unfoldValue_value (k+1)).2 id t ho,Phongo.internal]
      refine RefinesLoop.close (fun addId e he _ => ⟨?_,he⟩) L flags
      unfold appendInt
      split <;> rename_i hn <;>
        simp only [Phongo.appendElement,intElement,hn,if_true,if_false] <;> rfl
    | user ce t returned =>
      rw [unfoldValue_user ho,Phongo.internal]
      dsimp only
      intro e he hout
      unfold internalObject
      cases hser : ce.isSerializable with
      | true =>
        simp only [hser,if_true] at hout ⊢
        refine serialized_refines ce k returned (f:=fun z e =>
          let r := Phongo.closeFields L (Phongo.appendTable L U false ce.isPersistable
            (returnedZval h number child k returned)) flags e
          if ce.isPersistable then (odmField ce::r.1,r.2) else r) (fun v hv => ?_) e he hout
        subst hv
        exact ((A.table hsep ce.isPersistable k v).close L flags).odm ce
      | false =>
        simp only [hser,Bool.false_eq_true,if_false] at hout ⊢
        cases htype : ce.isType with
        | true =>
          simp only [htype,if_true] at hout
          exact throw_refines _ _ e he hout
        | false =>
          simp only [htype,Bool.false_eq_true,if_false] at hout ⊢
          exact (A.slots hsep true false t).close L flags e he hout

/-- `php_phongo_bson_append_object` on an object of a userland class. -/
theorem object (key : CString) (ce : ClassEntry) (t : T) (returned : Returned T O) :
    Refines h number (Phongo.appendObject key ce (returnedZval h number child 1 returned)
        (Phongo.internal L U (returnedZval h number child 1 returned) .none)
        (internalObject L ce (returnedZval h number child 1 returned)
          (Phongo.appendTable L U false ce.isPersistable (returnedZval h number child 1 returned))
          (Phongo.appendAll L U true false (unfoldTable h child t)) .none))
      (appendObject h L append key ce t returned) := by
  intro e he hout
  unfold Phongo.appendObject
  unfold appendObject at hout ⊢
  cases hser : ce.isSerializable with
  | true =>
    simp only [ClassEntry.isType_of_isSerializable hser,hser,if_true] at hout ⊢
    refine serialized_refines ce 1 returned (f:=fun z e =>
      if ce.isPersistable || !z.isBsonArray then
        Phongo.appendDocument key (fun e =>
          let r := Phongo.internal L U (returnedZval h number child 1 returned) .none e
          if ce.isPersistable then (odmField ce::r.1,r.2) else r) e
      else Phongo.appendArray key
        (Phongo.internal L U (returnedZval h number child 1 returned) .none) e)
      (fun v hv => ?_) e he hout
    subst hv
    obtain ⟨-,-,hlist,-⟩ := unfoldValue_looks h number child 1 v
    have hbody := A.body hsep 0 .none v
    simp only [hlist]
    split
    · exact (hbody.odm ce).document key
    · exact hbody.arrayElement key
  | false =>
    cases htype : ce.isType with
    | true =>
      simp only [htype,hser,if_true,Bool.false_eq_true,if_false] at hout
      exact throw_refines _ _ e he hout
    | false =>
      simp only [htype,Bool.false_eq_true,if_false] at hout ⊢
      have hown : ∀ e : Encoder, internalObject L ce (returnedZval h number child 1 returned)
          (Phongo.appendTable L U false ce.isPersistable (returnedZval h number child 1 returned))
          (Phongo.appendAll L U true false (unfoldTable h child t)) .none e =
          Phongo.closeFields L (Phongo.appendAll L U true false (unfoldTable h child t)) .none e :=
        fun e => by simp [internalObject,hser,htype]
      have hdoc := ((A.slots hsep true false t).close L .none).document key e he hout
      simpa only [Phongo.appendDocument,hown] using hdoc

omit A hsep in
variable (number) in
/-- Where the scope of a Javascript object is decoded, both levels are left with its exceptions. -/
theorem hashOfBson_refines (obj : BsonObject) (t : T) (e : GraphEncoder T O) :
    view number (Graph.hashOfBson L U obj t e).2 = Phongo.hashOfBson L U obj (view number e) ∧
      (Graph.hashOfBson L U obj t e).2.recursive = e.recursive ∧
      ∀ t' ∈ (Graph.hashOfBson L U obj t e).1, t' = t := by
  have hleaf : ∀ t' ∈ some t, t' = t := fun t' ht' => (Option.mem_some.mp ht').symm
  cases obj with
  | javascript code scope =>
    cases scope with
    | none => exact ⟨rfl,rfl,hleaf⟩
    | some scope =>
      refine ⟨rfl,rfl,fun t' ht' => ?_⟩
      simp only [Graph.hashOfBson,onOutput] at ht'
      split at ht'
      · exact hleaf t' ht'
      · exact absurd ht' (Option.not_mem_none t')
  | _ => exact ⟨rfl,rfl,hleaf⟩

/-- The `switch` of `php_phongo_bson_append`, one level up. -/
theorem value [DecidableEq T] (hnumber : Function.Injective number) (key : CString)
    {v : HeapValue T O} (hv : Apart h v) :
    Refines h number (Phongo.appendValue L U key (unfoldValue h number child 2 v))
      (appendValue h L U append true key v) := by
  cases v with
  | plain p => exact (plain_refines L U).1 p key
  | array t =>
    rw [unfoldValue,Phongo.appendValue,appendValue]
    have hkeys : Phongo.keysAreIndices 0 (unfoldTable h child t) =
        keysAreIndices 0 (h.elements t) := keysAreIndices_unfold (slotZval h child) 0 _
    have hbody := ((A.slots hsep false false t).close L .none).compound key
      (keysAreIndices 0 (h.elements t))
    have hguarded := hbody.guarded hnumber (.array t) (hv t rfl)
      (compoundType (keysAreIndices 0 (h.elements t)))
    simp only [hkeys]
    cases hlist : keysAreIndices 0 (h.elements t) <;> simpa [hlist,compoundType] using hguarded
  | object o =>
    rw [appendValue]
    cases ho : h.objects o with
    | bson obj t =>
      rw [(unfoldValue_value 2).1 obj t ho,Phongo.appendValue]
      intro e he hout
      obtain ⟨hview,hrec,htable⟩ := hashOfBson_refines number (U:=U) (L:=L) obj t e
      have hvalue : ∀ t' ∈ (Graph.hashOfBson L U obj t e).1, IsValueTable h t' := fun t' ht' =>
        ⟨o,.inl ⟨obj,htable t' ht' ▸ ho⟩⟩
      have hfound : Refines h number _ _ :=
        element_refines (.object o) hvalue key (bsonObjectValue L obj)
      have hpart := hfound _ (fun t' ht' => he t' (hrec ▸ ht')) hout
      rw [hview] at hpart
      exact hpart
    | cursorId id t =>
      rw [(unfoldValue_value 2).2 id t ho,Phongo.appendValue]
      exact element_refines (.object o) (fun t' ht' => by
        obtain rfl : t = t' := by simpa using ht'
        exact ⟨o,.inr ⟨id,ho⟩⟩) key (.int64 id)
    | user ce t returned =>
      rw [unfoldValue_user ho,Phongo.appendValue]
      exact (A.object hsep key ce t returned).guarded hnumber (.object o)
        (hsep.user o ce t returned ho) .document

end RefinesAppend

end Objects

section Main
variable [DecidableEq T] (hnumber : Function.Injective number) (hsep : Separate h)
include hnumber hsep

/-- `php_phongo_bson_append` at any depth. -/
theorem append_refines (n : ℕ) :
    RefinesAppend h number (unfold h number n) L U (append h L U true n) := by
  induction n with
  | zero =>
    refine ⟨append_records 0,fun key v _ e _ hout => ?_⟩
    simp [append,runOut] at hout
  | succ n ih =>
    refine ⟨append_records (n+1),fun key v hv => ?_⟩
    rw [unfold,append]
    exact (ih.value hsep hnumber key hv).element key

/-- What any value of a heap encodes to, and the exceptions left pending, are those of the tree it
unfolds to, wherever the unfolding stops below the tables of the heap. -/
theorem encoding_refines_unfolding [Fintype T] (L : Libbson) (U : Userland) (data : HeapValue T O)
    {n : ℕ} (hn : Fintype.card T < n) (flags : Flags) (eg : Pending) :
    let encoded := zvalToBson h L U true n data flags [] eg
    Phongo.zvalToBson L U (unfold h number (n+1) data) flags eg =
      (encoded.1,encoded.2.output.bsonOut,encoded.2.output.exceptions) := by
  intro encoded
  have hends := zvalToBson_ends (h:=h) (L:=L) (U:=U) hn data flags [] eg
  have hbody := (append_refines (L:=L) (U:=U) hnumber hsep n).body hsep 1 flags data (start [] eg)
    (fun t ht => absurd ht List.not_mem_nil) hends
  have hview : view number (start (T:=T) (O:=O) [] eg) = Encoder.init eg := rfl
  simp only [Phongo.zvalToBson,unfold]
  rw [← hview,hbody.1]
  rfl

end Main

def knot : PhpHeap Bool Unit Unit where
  elements
    | false => [(.str (ascii "self"),.reference ()),(.str (ascii "a"),.value (.object ()))]
    | true => []
  objects _ := .bson .maxKey true
  references _ := .array false

theorem encoding_refines_unfolding_knot :
    let encoded := zvalToBson knot .ascii (.keeping .person) true 3 (.array false) .none [] []
    Phongo.zvalToBson .ascii (.keeping .person) (unfold knot Bool.toNat 4 (.array false)) .none [] =
        (encoded.1,encoded.2.output.bsonOut,encoded.2.output.exceptions) ∧
      encoded.2.output.exceptions.length = 1 := by
  have hvalue : ∀ t, IsValueTable knot t → t = true := by
    rintro t ⟨o,⟨obj,ho⟩ | ⟨id,ho⟩⟩
    · simp only [knot,HeapObject.bson.injEq] at ho
      exact ho.2.symm
    · simp [knot] at ho
  have hsep : Separate knot := by
    refine ⟨fun o ce t returned ho => by simp [knot] at ho,fun t e he t' ht' hv => ?_,
      fun o ce t v ho => by simp [knot] at ho⟩
    obtain rfl := hvalue t' hv
    cases t <;> simp [knot] at he
    rcases he with rfl | rfl <;> simp [deref,knot] at ht'
  have hnumber : Function.Injective Bool.toNat := by decide
  exact ⟨encoding_refines_unfolding hnumber hsep .ascii _ _ (by decide) _ _,by decide +kernel⟩

end Graph
end Phongo
