import Mathlib.Tactic.Common
import Phongo.Bson.Data

/-! Exceptions accumulate: decoding and encoding leave the exceptions that were pending in
place, below those they throw, which are of one class but for those of userland. -/
namespace Phongo

/-- An exception of a conversion, or of the user code it calls. -/
def Exception.OfConversion : Exception → Prop
  | .phongo domain _ _ => domain = .unexpectedValue
  | .userland _ => True

/-- An exception of a decoding, or of the user code it calls: it names no path of the encoder. -/
def Exception.OfDecoding (x : Exception) : Prop := x.OfConversion ∧ ∀ key, x.under key = x

/-- What was pending first stays pending, below exceptions of which `P` holds. -/
def ThrowsOf (P : Exception → Prop) (eg eg' : Pending) : Prop :=
  ∃ thrown, eg' = thrown ++ eg ∧ ∀ e ∈ thrown, P e

/-- A conversion began with the first exceptions pending, and ended with the second. -/
def ThrowsOnto (eg eg' : Pending) : Prop := ∃ thrown, eg' = thrown ++ eg ∧ ∀ e ∈ thrown, e.OfConversion

namespace ThrowsOf
variable {P Q : Exception → Prop} {eg eg' eg'' : Pending}

theorem refl (eg : Pending) : ThrowsOf P eg eg := ⟨[],rfl,fun _ he => absurd he List.not_mem_nil⟩

theorem trans (h : ThrowsOf P eg eg') (h' : ThrowsOf P eg' eg'') : ThrowsOf P eg eg'' := by
  obtain ⟨thrown,rfl,hthrown⟩ := h
  obtain ⟨thrown',rfl,hthrown'⟩ := h'
  refine ⟨thrown' ++ thrown,(List.append_assoc _ _ _).symm,fun e he => ?_⟩
  exact (List.mem_append.mp he).elim (hthrown' e) (hthrown e)

theorem mono (hPQ : ∀ e, P e → Q e) (h : ThrowsOf P eg eg') : ThrowsOf Q eg eg' := by
  obtain ⟨thrown,heg,hthrown⟩ := h
  exact ⟨thrown,heg,fun e he => hPQ e (hthrown e he)⟩

theorem single {x : Exception} (h : P x) (eg : Pending) : ThrowsOf P eg (x::eg) :=
  ⟨[x],rfl,fun _ he => List.mem_singleton.mp he ▸ h⟩

theorem userland (h : ∀ id, P (.userland id)) (ids : List ℕ) : ThrowsOf P [] (thrownBy ids) := by
  refine ⟨thrownBy ids,(List.append_nil _).symm,fun e he => ?_⟩
  obtain ⟨id,-,rfl⟩ := List.mem_map.mp he
  exact h id

end ThrowsOf

theorem ThrowsOnto.refl (eg : Pending) : ThrowsOnto eg eg := ThrowsOf.refl eg

theorem ThrowsOnto.trans {eg eg' eg'' : Pending} (h : ThrowsOnto eg eg') (h' : ThrowsOnto eg' eg'') :
    ThrowsOnto eg eg'' := ThrowsOf.trans h h'

theorem throws_thrownBy (ids : List ℕ) : ThrowsOnto [] (thrownBy ids) :=
  ThrowsOf.userland (fun _ => trivial) ids

theorem throws_throwException (format : String) (args : List Arg) (eg : Pending) :
    ThrowsOnto eg (throwException .unexpectedValue format args eg) :=
  ⟨[_],rfl,fun _ he => List.mem_singleton.mp he ▸ rfl⟩

section Decoding
variable {L : Libbson} {U : Userland}

/-- What a decoding began with and what it ended with. -/
abbrev DecodesOnto (eg eg' : Pending) : Prop := ThrowsOf Exception.OfDecoding eg eg'

def Visit.Decodes (visit : Visit) : Prop :=
  ∀ state dec, DecodesOnto dec.exceptions (visit state dec).decoder.exceptions

theorem decodes_throwException {format : String} {args : List Arg}
    (h : ∀ key, args.map (Arg.under key) = args) (eg : Pending) :
    DecodesOnto eg (throwException .unexpectedValue format args eg) :=
  ThrowsOf.single ⟨rfl,fun key => congrArg (Exception.phongo _ _) (h key)⟩ eg

theorem decodes_unserializeAs (ce : Option ClassEntry) (z : Zval) (eg : Pending) :
    DecodesOnto eg (U.unserializeAs ce z eg).2 := by
  cases ce with
  | none => exact ThrowsOf.refl _
  | some ce =>
    unfold Userland.unserializeAs Userland.unserialize
    dsimp only
    split
    · rename_i he
      rw [he]
      exact ThrowsOf.userland (fun id => ⟨trivial,fun _ => rfl⟩) _
    · exact ThrowsOf.refl _

theorem decodes_finishDocument (type : TypemapType) (ce : Option ClassEntry) (z : Zval)
    (eg : Pending) : DecodesOnto eg (finishDocument U type ce z eg).2 := by
  cases type <;> first | exact ThrowsOf.refl _ | exact decodes_unserializeAs ce z eg

theorem decodes_finishArray (type : TypemapType) (ce : Option ClassEntry) (z : Zval)
    (eg : Pending) : DecodesOnto eg (finishArray U type ce z eg).2 := by
  cases type <;> first | exact ThrowsOf.refl _ | exact decodes_unserializeAs ce z eg

theorem visitDocument_decodes {children : Visit} (key : CString) (h : children.Decodes) :
    (visitDocument U key children).Decodes := by
  intro state dec
  have hc := h ⟨.array none [],state.map,none,false⟩ (dec.push key .document)
  unfold visitDocument
  dsimp only
  split
  · exact hc.trans (decodes_finishDocument _ _ _ _)
  · exact hc

theorem visitArray_decodes {children : Visit} (key : CString) (h : children.Decodes) :
    (visitArray U key children).Decodes := by
  intro state dec
  have hc := h ⟨.array none [],state.map,none,true⟩ (dec.push key .array)
  unfold visitArray
  dsimp only
  split
  · exact hc.trans (decodes_finishArray _ _ _ _)
  · exact hc

theorem decodes_bsonToZvalRoot {children : Visit} (h : children.Decodes) (offset : ℕ → ℕ)
    (exhausted : Bool) (state : BsonState) (eg : Pending) :
    DecodesOnto eg (bsonToZvalRoot U offset children exhausted state eg).1.exceptions := by
  have hc := h { state with zchild := .array none [] } ⟨FieldPath.alloc,eg,[]⟩
  unfold bsonToZvalRoot
  dsimp only
  split
  · split
    · exact hc.trans (decodes_finishDocument _ _ _ _)
    · exact (hc.trans (decodes_finishDocument _ _ _ _)).trans
        (decodes_throwException (fun _ => rfl) _)
  · split
    · exact hc.trans (decodes_throwException (fun _ => rfl) _)
    · exact hc

theorem decodes_autoload (name : Bytes) (eg : Pending) : DecodesOnto eg (U.autoload name eg) := by
  unfold Userland.autoload
  split
  · exact ThrowsOf.refl _
  · rename_i thrown _
    exact ⟨thrownBy thrown,rfl,fun e he => by
      obtain ⟨id,-,rfl⟩ := List.mem_map.mp he
      exact ⟨trivial,fun _ => rfl⟩⟩

theorem visitBinary_decodes (key : CString) (subtype : UInt8) (data : Bytes) :
    (visitBinary U key subtype data).Decodes := by
  intro state dec
  unfold visitBinary
  split
  · exact decodes_autoload data dec.exceptions
  · exact ThrowsOf.refl _

theorem visit_decodes (L : Libbson) (U : Userland) :
    (∀ v n key, (visitField L U n key v).Decodes) ∧
    (∀ d n, (visitAll L U n d).Decodes) := by
  refine BsonValue.induction ?leaf ?document ?array ?scope ?nil ?cons
  case leaf =>
    intro v hv n key
    cases v with
    | document | array | codeWithScope => exact hv.elim
    | unsupported typeCode => exact fun _ _ => decodes_throwException (fun _ => rfl) _
    | binary subtype data => exact visitBinary_decodes key subtype data
    | _ => exact fun _ _ => ThrowsOf.refl _
  case document => exact fun d ih n key => visitDocument_decodes key (ih 0)
  case array => exact fun d ih n key => visitArray_decodes key (ih 0)
  case scope =>
    intro c s ih n key state dec
    have hr := decodes_bsonToZvalRoot (U:=U) (ih 0) (L.offset s) true BsonState.init dec.exceptions
    rw [visitField]
    simp only [visitCodewscope]
    split
    · exact hr
    · exact hr
  case nil => exact fun n state dec => ThrowsOf.refl _
  case cons =>
    intro key v rest ihv ihd n state dec
    have hv := ihv n key state (dec.enterVisitor key)
    simp only [visitAll]
    split
    · split
      · exact hv.trans (ihd (n+1) _ _)
      · exact hv
    · exact ThrowsOf.refl _

theorem decodes_bsonToZvalEx (input : BsonInput) (state : BsonState) (eg : Pending) :
    DecodesOnto eg (bsonToZvalEx L U input state eg).exceptions := by
  cases input with
  | unreadable => exact decodes_throwException (fun _ => rfl) _
  | uniterable => exact decodes_throwException (fun _ => rfl) _
  | read d exhausted => exact decodes_bsonToZvalRoot ((visit_decodes L U).2 d 0) _ _ _ _

theorem throws_bsonToZvalEx (input : BsonInput) (state : BsonState) (eg : Pending) :
    ThrowsOnto eg (bsonToZvalEx L U input state eg).exceptions :=
  (decodes_bsonToZvalEx input state eg).mono fun _ h => h.1

end Decoding

section Encoding
variable {L : Libbson} {U : Userland} {e : Encoder}

def Append.Accumulates (f : Append) : Prop := ∀ e, ThrowsOnto e.exceptions (f e).2.exceptions

def Loop.Accumulates (f : Loop) : Prop :=
  ∀ addId e, ThrowsOnto e.exceptions (f addId e).encoder.exceptions

theorem throws_throw (e : Encoder) (format : String) (args : List Arg) :
    ThrowsOnto e.exceptions (e.throw format args).exceptions := throws_throwException _ _ _

theorem appendElement_accumulates (key : CString) (v : BsonValue) :
    (appendElement key v).Accumulates := fun _ => ThrowsOnto.refl _

theorem appendInt_accumulates (key : CString) (n : Int64) : (appendInt key n).Accumulates := by
  unfold appendInt
  split <;> exact appendElement_accumulates key _

theorem appendString_accumulates (key : CString) (s : Bytes) :
    (appendString L key s).Accumulates := by
  intro e
  unfold appendString
  split
  · exact ThrowsOnto.refl _
  · exact throws_throw _ _ _

theorem guarded_accumulates {f : Append} (ht : Option ℕ) (type : ItemType)
    (h : f.Accumulates) : (guarded ht type f).Accumulates := by
  have hbody : ∀ e : Encoder, ThrowsOnto e.exceptions
      ((f (e.enter type)).2.leave.protectionEnd ht).exceptions := fun e => by
    cases ht <;> exact h (e.enter type)
  intro e
  cases ht with
  | none => exact hbody e
  | some t =>
    unfold guarded
    simp only [Encoder.protectionBegin]
    by_cases hm : t ∈ e.protectedTables
    · simp only [hm,if_true]
      exact throws_throw _ _ _
    · simp only [hm,if_false]
      exact hbody { e with protectedTables := t::e.protectedTables }

theorem closeFields_accumulates {f : Loop} (flags : Flags) (h : f.Accumulates) :
    (closeFields L f flags).Accumulates := fun e => by
  rw [exceptions_closeFields]
  exact h flags.addId e

theorem throws_callBsonSerialize (returned : Zval) (e : Encoder) :
    ThrowsOnto e.exceptions (callBsonSerialize returned e).2.exceptions := by
  unfold callBsonSerialize
  split
  · rename_i he
    split
    · rw [he]
      exact throws_thrownBy _
    · exact ThrowsOnto.refl _
  · exact ThrowsOnto.refl _

theorem throws_hashOfBson (obj : BsonObject) (e : Encoder) :
    ThrowsOnto e.exceptions (hashOfBson L U obj e).exceptions := by
  unfold hashOfBson
  split
  · exact throws_bsonToZvalEx _ _ _
  · exact ThrowsOnto.refl _

theorem exceptions_withOdm (ce : ClassEntry) (r : Doc × Encoder) :
    (if ce.isPersistable then (odmField ce::r.1,r.2) else r).2.exceptions = r.2.exceptions := by
  split <;> rfl

theorem internalObject_accumulates (ce : ClassEntry) (returned : Zval) {table properties : Loop}
    (flags : Flags) (ht : table.Accumulates) (hp : properties.Accumulates) :
    (internalObject L ce returned table properties flags).Accumulates := by
  intro e
  have hcall := throws_callBsonSerialize returned e
  unfold internalObject
  dsimp only
  split
  · split
    · exact hcall
    · split
      · exact hcall.trans (throws_throw _ _ _)
      · rw [exceptions_withOdm]
        exact hcall.trans (closeFields_accumulates flags ht _)
  · split
    · exact throws_throw _ _ _
    · exact closeFields_accumulates flags hp e

theorem appendObject_accumulates (key : CString) (ce : ClassEntry) (returned : Zval)
    {nested own : Append} (hn : nested.Accumulates) (ho : own.Accumulates) :
    (appendObject key ce returned nested own).Accumulates := by
  intro e
  have hcall := throws_callBsonSerialize returned e
  unfold appendObject
  dsimp only
  split
  · split
    · split
      · exact hcall
      · split
        · exact hcall.trans (throws_throw _ _ _)
        · split
          · simp only [appendDocument]
            rw [exceptions_withOdm]
            exact hcall.trans (hn _)
          · exact hcall.trans (hn _)
    · exact throws_throw _ _ _
  · exact ho e

theorem append_accumulates (L : Libbson) (U : Userland) :
    (∀ z, (∀ key, (appendValue L U key z).Accumulates) ∧
      (∀ flags, (internal L U z flags).Accumulates) ∧
      (∀ fromProperties skip, (appendTable L U fromProperties skip z).Accumulates)) ∧
    (∀ els fromProperties skip, (appendAll L U fromProperties skip els).Accumulates) := by
  have nothing : Loop.Accumulates fun addId e => ⟨[],addId,false,e⟩ :=
    fun _ _ => ThrowsOnto.refl _
  have returns : ∀ _ : Flags, Append.Accumulates appendNothing := fun _ _ => ThrowsOnto.refl _
  refine Zval.induction ?leaf ?array ?object ?reference ?nil ?cons
  case leaf =>
    intro z hl
    cases z with
    | array | object | reference => exact hl.elim
    | undef | resource =>
      exact ⟨fun _ _ => throws_throw _ _ _,returns,fun _ _ => nothing⟩
    | null | bool | double =>
      exact ⟨fun key => appendElement_accumulates key _,returns,fun _ _ => nothing⟩
    | long n => exact ⟨fun key => appendInt_accumulates key n,returns,fun _ _ => nothing⟩
    | string s => exact ⟨fun key => appendString_accumulates key s,returns,fun _ _ => nothing⟩
    | bson obj =>
      refine ⟨fun key e => ?_,fun flags e => ?_,fun _ _ => nothing⟩
      · rw [appendValue]
        exact (throws_hashOfBson obj e).trans
          (guarded_accumulates none .document (appendElement_accumulates key _) _)
      · rw [internal]
        exact throws_throw _ _ _
    | cursorId id =>
      refine ⟨fun key => guarded_accumulates none .document (appendElement_accumulates key _),
        fun flags => ?_,fun _ _ => nothing⟩
      rw [internal]
      exact closeFields_accumulates flags fun addId e =>
        appendInt_accumulates (CString.lit "id") id (e.writeItem (CString.lit "id"))
  case array =>
    intro ht els ih
    refine ⟨fun key => ?_,fun flags => closeFields_accumulates flags (ih false false),
      fun fromProperties skip => ih fromProperties skip⟩
    rw [appendValue]
    have hbody := closeFields_accumulates (L:=L) .none (ih false false)
    split
    · exact guarded_accumulates ht .array fun e => hbody e
    · exact guarded_accumulates ht .document fun e => hbody e
  case object =>
    intro ce ht properties returned ihp ihr
    obtain ⟨-,hinternal,htable⟩ := ihr
    have hobject : ∀ flags, (internalObject L ce returned
        (appendTable L U false ce.isPersistable returned)
        (appendAll L U true false properties) flags).Accumulates := fun flags =>
      internalObject_accumulates ce returned flags (htable false _) (ihp true false)
    refine ⟨fun key => ?_,hobject,fun fromProperties skip => ihp fromProperties skip⟩
    rw [appendValue]
    exact guarded_accumulates ht .document
      (appendObject_accumulates key ce returned (hinternal .none) (hobject .none))
  case reference => exact fun z ih => ⟨ih.1,returns,fun _ _ => nothing⟩
  case nil => exact fun _ _ => nothing
  case cons =>
    intro key z rest ihz ihr fromProperties skip addId e
    simp only [appendAll]
    split
    · exact ihr fromProperties skip addId e
    · exact throws_throw _ _ _
    · rename_i name _
      exact (ihz.1 name (e.writeItem name)).trans (ihr fromProperties skip _ _)

theorem throws_zvalToBson (L : Libbson) (U : Userland) (data : Zval) (flags : Flags)
    (eg : Pending) : ThrowsOnto eg (zvalToBson L U data flags eg).2.2 :=
  ((append_accumulates L U).1 data).2.1 flags (Encoder.init eg)

end Encoding

end Phongo
