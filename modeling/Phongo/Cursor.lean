import Mathlib.Tactic.Common
import Phongo.Lib.Run
import Phongo.Bson.Materialise

/-! `MongoDB\Driver\Cursor`: iteration over result documents with one decoder state for the
whole life of the cursor. -/
namespace Phongo
open Transition

/-- What one `mongoc_cursor_next` yields. -/
inductive Reply
  | document (input : BsonInput)
  | noDocument
  | error (e : Exception)

/-- A reply with what the subscribers notified of its commands have thrown. -/
structure Answer where
  reply : Reply
  pending : Pending

/-- The libmongoc cursor: its current document and the answers to come. A cursor advanced past
its last reply reports an error. -/
structure MongocCursor where
  current : Option BsonInput
  upcoming : List Answer

namespace MongocCursor

def next (c : MongocCursor) : Answer × MongocCursor :=
  match c.upcoming with
  | [] => (⟨.error (.phongo .mongocFailed "Cannot advance a completed or failed cursor." []),[]⟩,
      ⟨none,[]⟩)
  | ⟨.document input,pending⟩::rest => (⟨.document input,pending⟩,⟨some input,rest⟩)
  | answer::rest => (answer,⟨none,rest⟩)

/-- `phongo_cursor_advance_and_check_for_error`: whether it succeeds, and what is pending. -/
def advanceAndCheckForError (c : MongocCursor) : Bool × Pending × MongocCursor :=
  let (answer,c) := c.next
  match answer.reply with
  | .document _ => (true,answer.pending,c)
  | .noDocument => (answer.pending.isEmpty,answer.pending,c)
  | .error e => (false,if answer.pending.isEmpty then [e] else answer.pending,c)

end MongocCursor

/-- `php_phongo_cursor_t` as far as iteration goes. -/
structure Cursor where
  visitorData : BsonState
  current : ℕ
  advanced : Bool
  mongoc : MongocCursor

namespace Cursor

/-- `phongo_cursor_init`; a query's cursor has been advanced already. -/
def init (mongoc : MongocCursor) (advanced : Bool) : Cursor :=
  ⟨BsonState.init,0,advanced,mongoc⟩

/-- `php_phongo_cursor_free_current` -/
def freeCurrent (c : Cursor) : Cursor :=
  { c with visitorData := { c.visitorData with zchild := .undef [] } }

/-- Decoding into `visitor_data`; an invalid result is freed. -/
def decode (L : Libbson) (U : Userland) (input : BsonInput) (eg : Pending) (c : Cursor) :
    Cursor × Pending :=
  let r := bsonToZvalEx L U input c.visitorData eg
  let c := { c with visitorData := r.state }
  (if r.ok then c else c.freeCurrent,r.exceptions)

/-- `Cursor::valid` -/
def valid (c : Cursor) : Bool := ! c.visitorData.zchild.isUndef

/-- `Cursor::current` -/
def currentValue (c : Cursor) : Zval :=
  if c.visitorData.zchild.isUndef then .null else c.visitorData.zchild

/-- `Cursor::setTypeMap`, given what `php_phongo_bson_typemap_to_state` makes of the argument.
`freed` is what the destructor of the element freed throws, here and below. -/
def setTypeMap (L : Libbson) (U : Userland) (parsed : Except Pending Typemap) (freed : Pending)
    (c : Cursor) : Cursor × Pending :=
  match parsed with
  | .error thrown => (c,thrown)
  | .ok map =>
    let restoreCurrentElement := ! c.visitorData.zchild.isUndef
    let c := { c with visitorData := { BsonState.init with map := map } }
    match if restoreCurrentElement then c.mongoc.current else none with
    | some doc => c.decode L U doc freed
    | none => (c,freed)

/-- `Cursor::next`, which never looks at what is pending. -/
def next (L : Libbson) (U : Userland) (freed : Pending) (c : Cursor) : Cursor × Pending :=
  let c := c.freeCurrent
  let c := if c.advanced then { c with current := c.current + 1 } else { c with advanced := true }
  let (answer,mongoc) := c.mongoc.next
  let c := { c with mongoc := mongoc }
  let eg := answer.pending ++ freed
  match answer.reply with
  | .document doc => c.decode L U doc eg
  | .noDocument => (c,eg)
  | .error e => (c,e::eg)

/-- The first half of `Cursor::rewind`: a cursor never advanced is advanced now. -/
def advanceOnce (c : Cursor) : Bool × Pending × Cursor :=
  if c.advanced then (true,[],c)
  else
    let (ok,eg,mongoc) := c.mongoc.advanceAndCheckForError
    (ok,eg,{ c with advanced := true, mongoc := mongoc })

/-- `Cursor::rewind` -/
def rewind (L : Libbson) (U : Userland) (freed : Pending) (c : Cursor) : Cursor × Pending :=
  let (ok,eg,c) := c.advanceOnce
  if ok then
    if c.current > 0 then
      (c,throwException .logic "Cursors cannot rewind after starting iteration" [] eg)
    else
      let c := c.freeCurrent
      match c.mongoc.current with
      | some doc => c.decode L U doc (freed ++ eg)
      | none => (c,freed ++ eg)
  else (c,eg)

end Cursor

inductive CursorMethod
  | rewind
  | next
  | current
  | setTypeMap (parsed : Except Pending Typemap)

/-- A call of a method. User code that runs inside the call (a subscriber, an autoloader,
`bsonUnserialize()`, a destructor) may itself call `rewind()`, `next()` or `setTypeMap()` of the
cursor. -/
structure CursorCall where
  method : CursorMethod
  freed : Pending
  reenters : Bool

/-- A call whose user code throws nothing and leaves the cursor alone. -/
def CursorMethod.alone (method : CursorMethod) : CursorCall := ⟨method,[],false⟩

/-- The value of a document decoded alone with a fresh state that carries the typemap. -/
def freshValue (L : Libbson) (U : Userland) (map : Typemap) (input : BsonInput) : Zval :=
  let fresh := bsonToZvalEx L U input { BsonState.init with map := map } []
  if fresh.ok then fresh.state.zchild else .null

/-- A cursor with what its user knows of it: the typemap last set and the document visited. -/
structure CursorRun where
  cursor : Cursor
  typemap : Typemap
  visited : Option BsonInput

namespace CursorRun

def init (mongoc : MongocCursor) (advanced : Bool) : CursorRun :=
  ⟨Cursor.init mongoc advanced,Typemap.default,none⟩

def call (L : Libbson) (U : Userland) (r : CursorRun) (freed : Pending) : CursorMethod → CursorRun
  | .rewind =>
    let c := (r.cursor.rewind L U freed).1
    let (ok,_,advanced) := r.cursor.advanceOnce
    if ok = false ∨ advanced.current > 0 then { r with cursor := c }
    else { r with cursor := c, visited := advanced.mongoc.current }
  | .next =>
    let c := (r.cursor.next L U freed).1
    { r with cursor := c, visited := c.mongoc.current }
  | .current => r
  | .setTypeMap parsed =>
    let c := (r.cursor.setTypeMap L U parsed freed).1
    match parsed with
    | .ok map => { r with cursor := c, typemap := map }
    | .error _ => { r with cursor := c }

/-- What `current()` should return: the visited document decoded alone with a fresh state. -/
def expected (L : Libbson) (U : Userland) (r : CursorRun) : Zval :=
  match r.visited with
  | none => .null
  | some input => freshValue L U r.typemap input

end CursorRun

section Independence
variable {L : Libbson} {U : Userland}

/-- The state's typemap is the one last set, but for a root type promoted to CLASS. -/
def BsonState.Carries (state : BsonState) (map : Typemap) : Prop :=
  state.isVisitingArray = false ∧ (state.map = map ∨
    map.rootType = .none ∧ state.odm.isSome ∧ state.map = { map with rootType := .class })

/-- No class left by an earlier document can reach the value of this one: there is none, or
the document brings its own, or the root type is explicit, or names that very class, or there
is no value. -/
def Harmless (L : Libbson) (U : Userland) (map : Typemap) (odm : Option ClassEntry) :
    BsonInput → Prop
  | .read d exhausted => odm = none ∨ (U.pclassOf d).isSome ∨ map.rootType = .nativeArray ∨
      map.rootType = .nativeObject ∨ (map.rootType = .class ∧ odm = map.root) ∨
      acceptsAll L d = false ∨ exhausted = false
  | _ => True

theorem init_carries (map : Typemap) :
    ({ BsonState.init with map := map } : BsonState).Carries map := ⟨rfl,Or.inl rfl⟩

theorem BsonState.Carries.materialiseAll {state : BsonState} {map : Typemap}
    (h : state.Carries map) (d : Doc) :
    materialiseAll L U state.map [] [] d = Phongo.materialiseAll L U map [] [] d := by
  rcases h.2 with hm | ⟨-,-,hm⟩
  · rw [hm]
  · rw [hm,materialiseAll_rootType]

/-- Promotion only anticipates what the recorded class would do to the root type. -/
theorem BsonState.Carries.rootTarget {state : BsonState} {map : Typemap}
    (h : state.Carries map) (pclass : Option ClassEntry) :
    state.map.rootTarget (pclass.or state.odm) = map.rootTarget (pclass.or state.odm) := by
  rcases h.2 with hm | ⟨hn,ho,hm⟩
  · rw [hm]
  · have hs : (pclass.or state.odm).isSome := by rw [Option.isSome_or,ho,Bool.or_true]
    obtain ⟨ce,hce⟩ := Option.isSome_iff_exists.mp hs
    rw [hm,hce]
    simp [Typemap.rootTarget,withPclass,TypemapType.target,hn]

theorem rootTarget_of_harmless {map : Typemap} {odm : Option ClassEntry} {d : Doc}
    (h : Harmless L U map odm (.read d true)) (ha : acceptsAll L d = true) :
    map.rootTarget ((U.pclassOf d).or odm) = map.rootTarget (U.pclassOf d) := by
  cases hp : U.pclassOf d with
  | some ce => rfl
  | none =>
    rcases h with h | h | h | h | ⟨h,ho⟩ | h | h
    · rw [h]; rfl
    · simp [hp] at h
    · cases odm <;> simp [Typemap.rootTarget,withPclass,TypemapType.target,h]
    · cases odm <;> simp [Typemap.rootTarget,withPclass,TypemapType.target,h]
    · cases odm <;> simp [Typemap.rootTarget,withPclass,TypemapType.target,h,← ho]
    · simp [ha] at h
    · simp at h

theorem Target.apply_isUndef (t : Target) (isArray : Bool) (zs : List (CString × Zval))
    (eg : Pending) : (t.apply U (ofFields isArray zs) eg).1.isUndef = false := by
  obtain ⟨els,hels⟩ := ofFields_eq_array isArray zs
  rw [hels]
  cases t with
  | array => rfl
  | object => rfl
  | unserialize ce =>
    cases ce with
    | none => rfl
    | some ce =>
      simp only [Target.apply,Userland.unserializeAs,Userland.unserialize]
      split <;> rfl

/-- The input on which decoding succeeds; the typemap has no part in it. -/
def BsonInput.valid (L : Libbson) : BsonInput → Bool
  | .read d exhausted => acceptsAll L d && exhausted
  | _ => false

theorem bsonToZvalEx_ok (input : BsonInput) (state : BsonState)
    (hs : state.isVisitingArray = false) (eg : Pending) :
    (bsonToZvalEx L U input state eg).ok = input.valid L := by
  cases input with
  | unreadable => rfl
  | uniterable => rfl
  | read d exhausted =>
    simp only [bsonToZvalEx,BsonInput.valid]
    cases ha : acceptsAll L d with
    | true => rw [bsonToZvalRoot_accepts ha exhausted state hs eg]; simp
    | false => exact (bsonToZvalRoot_rejects ha exhausted state eg).1

/-- The value of a valid input, from any state that carries the typemap. -/
theorem bsonToZvalEx_zchild {d : Doc} {state : BsonState} {map : Typemap}
    (ha : acceptsAll L d = true) (hc : state.Carries map) :
    (bsonToZvalEx L U (.read d true) state []).state.zchild =
      ((map.rootTarget ((U.pclassOf d).or state.odm)).apply U
        (ofFields false (materialiseAll L U map [] [] d).1)
        (materialiseAll L U map [] [] d).2).1 := by
  rw [bsonToZvalEx,bsonToZvalRoot_accepts ha true state hc.1 [],← hc.rootTarget]
  simp only [hc.materialiseAll]

/-- Decoding leaves the caller's typemap as it was but for a promoted root type. -/
theorem bsonToZvalEx_carries (input : BsonInput) {state : BsonState} {map : Typemap}
    (hc : state.Carries map) (eg : Pending) :
    (bsonToZvalEx L U input state eg).state.Carries map := by
  cases input with
  | unreadable => exact hc
  | uniterable => exact hc
  | read d exhausted =>
    simp only [bsonToZvalEx]
    cases ha : acceptsAll L d with
    | false =>
      obtain ⟨-,-,hm,ho,hv,-⟩ := bsonToZvalRoot_rejects (U:=U) ha exhausted state eg
      refine ⟨hv.trans hc.1,?_⟩
      rw [hm]
      exact hc.2.imp id fun h => ⟨h.1,ho h.2.1,h.2.2⟩
    | true =>
      rw [bsonToZvalRoot_accepts ha exhausted state hc.1 eg]
      refine ⟨hc.1,?_⟩
      simp only
      by_cases hp : ((U.pclassOf d).or state.odm).isSome ∧ state.map.rootType = .none
      · rcases hc.2 with hm | ⟨-,-,hm⟩
        · right
          rw [hm] at hp ⊢
          exact ⟨hp.2,hp.1,by simp only [odmType,hp,and_self,if_true]⟩
        · simp [hm] at hp
      · have ht : odmType ((U.pclassOf d).or state.odm) state.map.rootType =
            state.map.rootType := by simp only [odmType,hp,if_false]
        rw [ht]
        rcases hc.2 with hm | ⟨hn,ho,hm⟩
        · exact Or.inl hm
        · exact Or.inr ⟨hn,by rw [Option.isSome_or,ho,Bool.or_true],hm⟩

theorem freshValue_valid {d : Doc} (map : Typemap) (ha : acceptsAll L d = true) :
    freshValue L U map (.read d true) = (materialiseRoot L U map [] d).1 := by
  obtain ⟨hok,hz,-⟩ := bsonToZvalEx_fresh (U:=U) ha map []
  simp only [freshValue,hok,if_true,hz]

theorem freshValue_of_invalid {input : BsonInput} (map : Typemap)
    (h : input.valid L = false) : freshValue L U map input = .null := by
  have hok := bsonToZvalEx_ok (L:=L) (U:=U) input { BsonState.init with map := map } rfl []
  simp only [freshValue,hok,h,Bool.false_eq_true,if_false]

/-- A cursor shows `value`, decoded under `map`. -/
structure Cursor.Shows (c : Cursor) (map : Typemap) (value : Zval) (undef : Bool) : Prop where
  carries : c.visitorData.Carries map
  value : c.currentValue = value
  undef : c.visitorData.zchild.isUndef = undef

theorem Cursor.freeCurrent_shows {c : Cursor} {map : Typemap} (h : c.visitorData.Carries map) :
    c.freeCurrent.Shows map .null true := ⟨h,rfl,rfl⟩

theorem Cursor.decode_shows {c : Cursor} {map : Typemap} {input : BsonInput}
    (hc : c.visitorData.Carries map) (h : Harmless L U map c.visitorData.odm input) :
    (c.decode L U input []).1.Shows map (freshValue L U map input) (!input.valid L) := by
  have hok := bsonToZvalEx_ok (L:=L) (U:=U) input c.visitorData hc.1 []
  have hcarries := bsonToZvalEx_carries (L:=L) (U:=U) input hc []
  unfold Cursor.decode
  cases hv : input.valid L with
  | false =>
    rw [freshValue_of_invalid map hv]
    simpa [hok,hv] using Cursor.freeCurrent_shows (c:={ c with
      visitorData := (bsonToZvalEx L U input c.visitorData []).state }) hcarries
  | true =>
    match input, hv with
    | .read d exhausted, hv =>
      simp only [BsonInput.valid,Bool.and_eq_true] at hv
      obtain ⟨ha,rfl⟩ := hv
      have hz := bsonToZvalEx_zchild (U:=U) ha hc
      rw [rootTarget_of_harmless h ha] at hz
      have hu := Target.apply_isUndef (U:=U) (map.rootTarget (U.pclassOf d)) false
        (materialiseAll L U map [] [] d).1 (materialiseAll L U map [] [] d).2
      rw [← hz] at hu
      have hval : (bsonToZvalEx L U (.read d true) c.visitorData []).ok = true := by
        rw [hok]; simp [BsonInput.valid,ha]
      simp only [hval,if_true]
      refine ⟨hcarries,?_,by simpa using hu⟩
      rw [freshValue_valid map ha,materialiseRoot,← hz]
      simp [Cursor.currentValue,hu]

@[simp] theorem Cursor.decode_mongoc (c : Cursor) (input : BsonInput) (eg : Pending) :
    (c.decode L U input eg).1.mongoc = c.mongoc := by
  unfold Cursor.decode; dsimp only; split <;> rfl

@[simp] theorem Cursor.decode_advanced (c : Cursor) (input : BsonInput) (eg : Pending) :
    (c.decode L U input eg).1.advanced = c.advanced := by
  unfold Cursor.decode; dsimp only; split <;> rfl

/-- The documents a call decodes meet no harmful class and nothing pending. -/
def CursorRun.DecodesAlone (L : Libbson) (U : Userland) (r : CursorRun) (freed : Pending) :
    CursorMethod → Prop
  | .rewind => ∀ doc, r.cursor.current = 0 →
      r.cursor.advanceOnce.2.2.mongoc.current = some doc →
        freed ++ r.cursor.advanceOnce.2.1 = [] ∧
          Harmless L U r.typemap r.cursor.visitorData.odm doc
  | .next => ∀ doc, r.cursor.mongoc.next.1.reply = .document doc →
      r.cursor.mongoc.next.1.pending ++ freed = [] ∧
        Harmless L U r.typemap r.cursor.visitorData.odm doc
  | .current => True
  | .setTypeMap parsed => ∀ map, parsed = .ok map → r.cursor.valid = true → freed = []

def CursorRun.Admissible (L : Libbson) (U : Userland) (r : CursorRun) (call : CursorCall) : Prop :=
  call.reenters = false ∧ r.DecodesAlone L U call.freed call.method

/-- The cursor shows the visited document as decoded alone. -/
structure CursorRun.Independent (L : Libbson) (U : Userland) (r : CursorRun) : Prop where
  shows : r.cursor.Shows r.typemap (r.expected L U)
    (match r.visited with | none => true | some input => !input.valid L)
  visited : ∀ input, r.visited = some input → r.cursor.mongoc.current = some input
  unvisited : r.cursor.advanced = false → r.visited = none

theorem CursorRun.init_independent (mongoc : MongocCursor) (advanced : Bool) :
    (CursorRun.init mongoc advanced).Independent L U :=
  ⟨⟨init_carries Typemap.default,rfl,rfl⟩,by simp [CursorRun.init],fun _ => rfl⟩

/-- What a run with the given typemap and document visited should show. -/
def Cursor.ShowsVisited (L : Libbson) (U : Userland) (c : Cursor) (map : Typemap)
    (visited : Option BsonInput) : Prop :=
  c.Shows map (match visited with | none => .null | some input => freshValue L U map input)
    (match visited with | none => true | some input => !input.valid L)

theorem Cursor.next_shows {c : Cursor} {map : Typemap} {freed : Pending}
    (hc : c.visitorData.Carries map)
    (hok : ∀ doc, c.mongoc.next.1.reply = .document doc →
      c.mongoc.next.1.pending ++ freed = [] ∧ Harmless L U map c.visitorData.odm doc) :
    (c.next L U freed).1.ShowsVisited L U map (c.next L U freed).1.mongoc.current ∧
      (c.next L U freed).1.advanced = true := by
  obtain ⟨state,current,advanced,⟨doc,upcoming⟩⟩ := c
  have hfree : ({ state with zchild := .undef [] } : BsonState).Carries map := hc
  cases upcoming with
  | nil => cases advanced <;> exact ⟨⟨hfree,rfl,rfl⟩,rfl⟩
  | cons answer rest =>
    obtain ⟨reply,pending⟩ := answer
    cases reply with
    | noDocument => cases advanced <;> exact ⟨⟨hfree,rfl,rfl⟩,rfl⟩
    | error e => cases advanced <;> exact ⟨⟨hfree,rfl,rfl⟩,rfl⟩
    | document input =>
      obtain ⟨hpending,hharm⟩ := hok input rfl
      have hnext : (Cursor.next L U freed ⟨state,current,advanced,
          ⟨doc,⟨.document input,pending⟩::rest⟩⟩) = Cursor.decode L U input (pending ++ freed)
          ⟨{ state with zchild := .undef [] },if advanced then current + 1 else current,true,
            ⟨some input,rest⟩⟩ := by
        cases advanced <;> rfl
      have hs := Cursor.decode_shows (c:=⟨{ state with zchild := .undef [] },
        if advanced then current + 1 else current,true,⟨some input,rest⟩⟩) hfree hharm
      have hpending : pending ++ freed = [] := hpending
      rw [hnext,hpending,Cursor.decode_mongoc,Cursor.decode_advanced]
      exact ⟨hs,rfl⟩

theorem Cursor.advanceOnce_fields (c : Cursor) :
    c.advanceOnce.2.2.visitorData = c.visitorData ∧ c.advanceOnce.2.2.current = c.current ∧
      c.advanceOnce.2.2.advanced = true ∧
      (c.advanced = true → c.advanceOnce = (true,[],c)) := by
  unfold Cursor.advanceOnce
  by_cases h : c.advanced = true
  · simp [h]
  · simp [h]

theorem CursorRun.call_next {r : CursorRun} {freed : Pending} (h : r.Independent L U)
    (hok : r.DecodesAlone L U freed .next) : (r.call L U freed .next).Independent L U := by
  obtain ⟨hs,ha⟩ := Cursor.next_shows h.shows.carries hok
  exact ⟨hs,fun _ => id,fun hf => absurd (hf.symm.trans ha) (by simp)⟩

theorem CursorRun.call_rewind {r : CursorRun} {freed : Pending} (h : r.Independent L U)
    (hok : r.DecodesAlone L U freed .rewind) : (r.call L U freed .rewind).Independent L U := by
  obtain ⟨hstate,hcurrent,hadv,hsame⟩ := r.cursor.advanceOnce_fields
  simp only [CursorRun.call,Cursor.rewind,CursorRun.DecodesAlone] at hok ⊢
  generalize hadvance : r.cursor.advanceOnce = a at hok hstate hcurrent hadv hsame ⊢
  obtain ⟨ok,eg,c⟩ := a
  have hcarries : c.visitorData.Carries r.typemap := by
    rw [hstate]; exact h.shows.carries
  -- nothing is decoded when the first advance fails or iteration has started
  have kept : (c.Shows r.typemap (r.expected L U)
      (match r.visited with | none => true | some input => !input.valid L)) :=
    ⟨hcarries,by rw [Cursor.currentValue,hstate]; exact h.shows.value,
      by rw [hstate]; exact h.shows.undef⟩
  have visited : ∀ input, r.visited = some input → c.mongoc.current = some input :=
    fun input hv => by
      have ht : r.cursor.advanced = true := by
        by_contra hf
        simp [h.unvisited (by simpa using hf)] at hv
      have hc : c = r.cursor := congrArg (fun a => a.2.2) (hsame ht)
      rw [hc]
      exact h.visited input hv
  have unvisited : c.advanced = false → r.visited = none := fun hf =>
    absurd (hf.symm.trans hadv) (by simp)
  cases ok with
  | false => simpa using ⟨kept,visited,unvisited⟩
  | true =>
    by_cases hpos : c.current > 0
    · simpa [hpos] using ⟨kept,visited,unvisited⟩
    · simp only [Bool.true_eq_false,hpos,or_self,if_false,if_true]
      have hzero : r.cursor.current = 0 := by
        rw [← hcurrent]
        exact Nat.eq_zero_of_not_pos hpos
      cases hd : c.mongoc.current with
      | none =>
        have hd' : c.freeCurrent.mongoc.current = none := hd
        rw [hd']
        exact ⟨Cursor.freeCurrent_shows hcarries,by simp,fun _ => rfl⟩
      | some doc =>
        have hd' : c.freeCurrent.mongoc.current = some doc := hd
        rw [hd']
        obtain ⟨hpending,hharm⟩ := hok doc hzero hd
        rw [← hstate] at hharm
        simp only [hpending]
        refine ⟨Cursor.decode_shows (c:=c.freeCurrent) hcarries hharm,?_,?_⟩
        · intro input hi
          rw [Cursor.decode_mongoc]
          exact hd'.trans hi
        · intro hf
          rw [Cursor.decode_advanced] at hf
          exact absurd (hf.symm.trans hadv) (by simp)

theorem CursorRun.call_setTypeMap {r : CursorRun} {freed : Pending} (h : r.Independent L U)
    {parsed : Except Pending Typemap} (hok : r.DecodesAlone L U freed (.setTypeMap parsed)) :
    (r.call L U freed (.setTypeMap parsed)).Independent L U := by
  cases parsed with
  | error thrown => exact h
  | ok map =>
    have hfreed := hok map rfl
    simp only [CursorRun.call,Cursor.setTypeMap,Cursor.valid,h.shows.undef] at hfreed ⊢
    cases hv : r.visited with
    | none =>
      exact ⟨⟨init_carries map,rfl,rfl⟩,by simp,fun _ => rfl⟩
    | some input =>
      have hc := h.visited input hv
      have ht : r.cursor.advanced ≠ false := fun hf => by simp [h.unvisited hf] at hv
      cases hvalid : input.valid L with
      | false =>
        -- an invalid document shows nothing under any typemap
        simp only [hvalid,Bool.not_false,Bool.not_true,Bool.false_eq_true,if_false]
        refine ⟨⟨init_carries map,?_,?_⟩,?_,fun hf => absurd hf ht⟩
        · exact (freshValue_of_invalid map hvalid).symm
        · simp [hvalid,BsonState.init,Zval.isUndef]
        · intro i hi
          exact hc.trans (by simpa using hi)
      | true =>
        simp only [hv,hvalid,Bool.not_true,Bool.not_false,if_true,hc,forall_const] at hfreed ⊢
        rw [hfreed]
        have hharm : Harmless L U map none input := by
          cases input <;> simp [Harmless]
        refine ⟨Cursor.decode_shows (c:={ r.cursor with
          visitorData := { BsonState.init with map := map } }) (init_carries map) hharm,?_,?_⟩
        · intro i hi
          rw [Cursor.decode_mongoc]
          exact hc.trans hi
        · intro hf
          rw [Cursor.decode_advanced] at hf
          exact absurd hf ht

theorem CursorRun.call_independent {r : CursorRun} {freed : Pending} (method : CursorMethod)
    (h : r.Independent L U) (hok : r.DecodesAlone L U freed method) :
    (r.call L U freed method).Independent L U := by
  cases method with
  | rewind => exact call_rewind h hok
  | next => exact call_next h hok
  | current => exact h
  | setTypeMap parsed => exact call_setTypeMap h hok

end Independence

/-- One call on a cursor; what it leaves when the cursor is called again inside it is open. -/
def CursorRun.Step (L : Libbson) (U : Userland) (r : CursorRun) (call : CursorCall)
    (r' : CursorRun) : Prop :=
  call.reenters = false → r' = r.call L U call.freed call.method

end Phongo
