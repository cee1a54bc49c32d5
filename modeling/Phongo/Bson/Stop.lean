import Mathlib.Tactic.Common
import Phongo.Bson.Materialise

/-! Decoding while an exception is pending: no method of the application runs. What is thrown is
told by the elements that are visited. -/
namespace Phongo

def Userland.failsToLoad (U : Userland) (key : CString) : BsonValue → Bool
  | .binary subtype data => subtype = 0x80 && key = odmFieldName &&
    match U.lookupClass data with
    | .ok _ => false
    | .error thrown => !thrown.isEmpty
  | _ => false

mutual

/-- A visit of the element throws: for an unknown type, or by the autoloader. -/
def reports (L : Libbson) (U : Userland) (key : CString) : BsonValue → Bool
  | .document d | .array d | .codeWithScope _ d => reportsAll L U d
  | .unsupported _ => true
  | v => U.failsToLoad key v

def reportsAll (L : Libbson) (U : Userland) : List (CString × BsonValue) → Bool
  | [] => false
  | (key,value)::rest => L.keyValid key && L.textValid value &&
    (reports L U key value || accepts L value && reportsAll L U rest)

end

/-- What is pending later, with more thrown or the same. -/
def Extends (more : Bool) (eg eg' : Pending) : Prop :=
  ∃ thrown, eg' = thrown ++ eg ∧ (thrown = [] ↔ more = false)

/-- With an exception pending, a visit ends as `accepted` says and throws as `reported` says. -/
def Visit.StopsAs (visit : Visit) (accepted reported : Bool) : Prop :=
  ∀ state dec, dec.exceptions ≠ [] →
    ((visit state dec).result = .finished ↔ accepted = true) ∧
      Extends reported dec.exceptions (visit state dec).decoder.exceptions

section
variable {U : Userland} {accepted reported : Bool} {eg eg' eg'' : Pending}

theorem Extends.refl (eg : Pending) : Extends false eg eg := ⟨[],rfl,by simp⟩

theorem Extends.cons (e : Exception) (eg : Pending) : Extends true eg (e::eg) := ⟨[e],rfl,by simp⟩

theorem Extends.trans {more more' : Bool} (h : Extends more eg eg') (h' : Extends more' eg' eg'') :
    Extends (more || more') eg eg'' := by
  obtain ⟨thrown,rfl,hthrown⟩ := h
  obtain ⟨thrown',rfl,hthrown'⟩ := h'
  refine ⟨thrown' ++ thrown,(List.append_assoc _ _ _).symm,?_⟩
  rw [List.append_eq_nil_iff,hthrown,hthrown',Bool.or_eq_false_iff,and_comm]

theorem Extends.ne_nil {more : Bool} (h : Extends more eg eg') (heg : eg ≠ []) : eg' ≠ [] := by
  obtain ⟨thrown,rfl,-⟩ := h
  exact List.append_ne_nil_of_right_ne_nil thrown heg

theorem autoloadField_extends (key : CString) (v : BsonValue) (eg : Pending) :
    Extends (U.failsToLoad key v) eg (U.autoloadField key v eg) := by
  unfold Userland.autoloadField
  split
  · rename_i subtype data
    by_cases hclass : subtype = 0x80 ∧ key = odmFieldName
    · simp only [Userland.failsToLoad,Userland.autoload,hclass,and_self,if_true,decide_true,
        Bool.true_and]
      cases U.lookupClass data with
      | ok ce => exact Extends.refl eg
      | error thrown => exact ⟨thrownBy thrown,rfl,by simp [thrownBy]⟩
    · have hfalse : U.failsToLoad key (.binary subtype data) = false := by
        unfold Userland.failsToLoad
        rw [Bool.and_eq_false_iff,Bool.and_eq_false_iff]
        left
        simpa using not_and_or.mp hclass
      rw [if_neg hclass,hfalse]
      exact Extends.refl eg
  · rename_i h
    have hfalse : U.failsToLoad key v = false := by
      cases v with
      | binary s b => exact absurd rfl (h s b)
      | _ => rfl
    rw [hfalse]
    exact Extends.refl eg

theorem unserializeAs_pending (ce : Option ClassEntry) (z : Zval) (h : eg ≠ []) :
    (U.unserializeAs ce z eg).2 = eg := by
  cases ce with
  | none => rfl
  | some ce => simp [Userland.unserializeAs,Userland.unserialize,h]

theorem finishDocument_pending (type : TypemapType) (ce : Option ClassEntry) (z : Zval)
    (h : eg ≠ []) : (finishDocument U type ce z eg).2 = eg := by
  cases type with
  | «class» => exact unserializeAs_pending ce z h
  | _ => rfl

theorem finishArray_pending (type : TypemapType) (ce : Option ClassEntry) (z : Zval)
    (h : eg ≠ []) : (finishArray U type ce z eg).2 = eg := by
  cases type with
  | «class» => exact unserializeAs_pending ce z h
  | _ => rfl

theorem visitDocument_stops {children : Visit} (key : CString)
    (h : children.StopsAs accepted reported) :
    (visitDocument U key children).StopsAs accepted reported := by
  intro state dec hdec
  obtain ⟨hresult,hthrown⟩ :=
    h ⟨.array none [],state.map,none,false⟩ (dec.push key .document) hdec
  unfold visitDocument
  dsimp only
  split
  · rename_i hfinished
    refine ⟨iff_of_true rfl (hresult.mp hfinished),?_⟩
    simp only [Decoder.pop]
    rw [finishDocument_pending _ _ _ (hthrown.ne_nil hdec)]
    exact hthrown
  · rename_i hfinished
    exact ⟨iff_of_false (fun h => by cases h) (mt hresult.mpr hfinished),hthrown⟩

theorem visitArray_stops {children : Visit} (key : CString)
    (h : children.StopsAs accepted reported) :
    (visitArray U key children).StopsAs accepted reported := by
  intro state dec hdec
  obtain ⟨hresult,hthrown⟩ :=
    h ⟨.array none [],state.map,none,true⟩ (dec.push key .array) hdec
  unfold visitArray
  dsimp only
  split
  · rename_i hfinished
    refine ⟨iff_of_true rfl (hresult.mp hfinished),?_⟩
    simp only [Decoder.pop]
    rw [finishArray_pending _ _ _ (hthrown.ne_nil hdec)]
    exact hthrown
  · rename_i hfinished
    exact ⟨iff_of_false (fun h => by cases h) (mt hresult.mpr hfinished),hthrown⟩

/-- A document that is read to the end of its buffer, as the root of a decoding. -/
theorem bsonToZvalRoot_stops {children : Visit} (h : children.StopsAs accepted reported)
    (offset : ℕ → ℕ) (state : BsonState) (heg : eg ≠ []) :
    ((bsonToZvalRoot U offset children true state eg).1.ok = true ↔ accepted = true) ∧
      Extends reported eg (bsonToZvalRoot U offset children true state eg).1.exceptions := by
  obtain ⟨hresult,hthrown⟩ :=
    h { state with zchild := .array none [] } ⟨FieldPath.alloc,eg,[]⟩ heg
  have hne := hthrown.ne_nil heg
  unfold bsonToZvalRoot
  dsimp only
  split
  · rename_i hfinished
    rw [if_pos rfl]
    refine ⟨iff_of_true rfl (hresult.mp hfinished),?_⟩
    rw [finishDocument_pending _ _ _ hne]
    exact hthrown
  · rename_i hfinished
    exact ⟨iff_of_false (fun h => by cases h) (mt hresult.mpr hfinished),hthrown⟩

theorem visit_stops (L : Libbson) (U : Userland) :
    (∀ v n key, (visitField L U n key v).StopsAs (accepts L v) (reports L U key v)) ∧
    (∀ d n, (visitAll L U n d).StopsAs (acceptsAll L d) (reportsAll L U d)) := by
  refine BsonValue.induction ?leaf ?document ?array ?scope ?nil ?cons
  case leaf =>
    intro v hv n key state dec hdec
    cases v with
    | document | array | codeWithScope => exact hv.elim
    | unsupported typeCode =>
      exact ⟨iff_of_false (fun h => by cases h) (by simp [accepts]),Extends.cons _ _⟩
    | corrupt => exact ⟨iff_of_false (fun h => by cases h) (by simp [accepts]),Extends.refl _⟩
    | binary subtype data =>
      rw [visitField,visitBinary_eq]
      exact ⟨iff_of_true rfl rfl,autoloadField_extends key (.binary subtype data) _⟩
    | _ => exact ⟨iff_of_true rfl rfl,Extends.refl _⟩
  case document => exact fun d ih n key => visitDocument_stops key (ih 0)
  case array => exact fun d ih n key => visitArray_stops key (ih 0)
  case scope =>
    intro c d ih n key state dec hdec
    obtain ⟨hok,hthrown⟩ := bsonToZvalRoot_stops (U:=U) (ih 0) (L.offset d) BsonState.init hdec
    rw [visitField]
    simp only [visitCodewscope]
    split
    · rename_i h
      exact ⟨iff_of_true rfl (hok.mp h),hthrown⟩
    · rename_i h
      exact ⟨iff_of_false (fun h => by cases h) (mt hok.mpr h),hthrown⟩
  case nil => exact fun n state dec hdec => ⟨iff_of_true rfl rfl,Extends.refl _⟩
  case cons =>
    intro key v rest ihv ihd n state dec hdec
    obtain ⟨hresult,hthrown⟩ := ihv n key state (dec.enterVisitor key) hdec
    simp only [visitAll,acceptsAll,reportsAll]
    cases hvalid : L.keyValid key && L.textValid v with
    | false => exact ⟨iff_of_false (fun h => by cases h) (by simp),Extends.refl _⟩
    | true =>
      simp only [if_true,Bool.true_and]
      cases ha : accepts L v with
      | true =>
        have hrest := ihd (n+1) (visitField L U n key v state (dec.enterVisitor key)).state
          (visitField L U n key v state (dec.enterVisitor key)).decoder (hthrown.ne_nil hdec)
        rw [if_pos (hresult.mpr ha)]
        exact ⟨hrest.1,hthrown.trans hrest.2⟩
      | false =>
        have hstopped := mt hresult.mp (by simp [ha])
        rw [if_neg hstopped,Bool.false_and,Bool.false_and,Bool.or_false]
        exact ⟨iff_of_false hstopped (by simp),hthrown⟩

theorem bsonToZvalEx_stops (L : Libbson) (U : Userland) (d : Doc) (state : BsonState)
    (heg : eg ≠ []) :
    ((bsonToZvalEx L U (.read d true) state eg).ok = true ↔ acceptsAll L d = true) ∧
      Extends (reportsAll L U d) eg (bsonToZvalEx L U (.read d true) state eg).exceptions :=
  bsonToZvalRoot_stops ((visit_stops L U).2 d 0) (L.offset d) state heg

end

end Phongo
