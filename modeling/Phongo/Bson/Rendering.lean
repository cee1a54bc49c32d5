import Mathlib.Tactic.Common
import Phongo.Bson.Materialise
import Phongo.FieldPathRendering

/-! The field paths a decoding renders for its messages, and which documents make it render one
out of bounds. -/
namespace Phongo

/-- What a decoding that stopped without an exception renders at its root. -/
def Visited.unreported (r : Visited) : List FieldPath :=
  if r.result ≠ .finished ∧ r.decoder.exceptions = [] then [r.decoder.fieldPath] else []

/-- `children` visits the root's elements, `rendered` are the paths rendered meanwhile. -/
def renderedRoot (children : Visit) (rendered : BsonState → Decoder → List FieldPath)
    (state : BsonState) (eg : Pending) : List FieldPath :=
  let root : BsonState := { state with zchild := .array none [] }
  rendered root ⟨FieldPath.alloc,eg,[]⟩ ++ (children root ⟨FieldPath.alloc,eg,[]⟩).unreported

mutual

def renderedField (L : Libbson) (U : Userland) (key : CString) :
    BsonValue → BsonState → Decoder → List FieldPath
  | .document d => fun parent dec =>
    renderedAll L U 0 d ⟨.array none [],parent.map,none,false⟩ (dec.push key .document)
  | .array d => fun parent dec =>
    renderedAll L U 0 d ⟨.array none [],parent.map,none,true⟩ (dec.push key .array)
  | .codeWithScope _ scope => fun _ dec =>
    renderedRoot (visitAll L U 0 scope) (renderedAll L U 0 scope) BsonState.init dec.exceptions
  | .unsupported _ => fun _ dec => [(dec.writeItem key).fieldPath]
  | _ => fun _ _ => []

/-- The paths rendered by `bson_iter_visit_all` from the n-th element on. -/
def renderedAll (L : Libbson) (U : Userland) (n : ℕ) :
    List (CString × BsonValue) → BsonState → Decoder → List FieldPath
  | [] => fun _ _ => []
  | (key,value)::rest => fun state dec =>
    if L.keyValid key && L.textValid value then
      let r := visitField L U n key value state (dec.enterVisitor key)
      renderedField L U key value state (dec.enterVisitor key) ++
        if r.result = .finished then renderedAll L U (n+1) rest r.state r.decoder else []
    else []

end

/-- The paths `php_phongo_bson_to_zval_ex` renders. -/
def renderedEx (L : Libbson) (U : Userland) (input : BsonInput) (state : BsonState)
    (eg : Pending) : List FieldPath :=
  match input with
  | .unreadable | .uniterable => []
  | .read d _ => renderedRoot (visitAll L U 0 d) (renderedAll L U 0 d) state eg

def BsonValue.isCompound : BsonValue → Bool
  | .document _ | .array _ => true
  | _ => false

mutual

/-- The levels an element writes or clears, counted from its own on; closing a document clears a
slot at the level of its elements. -/
def levels : BsonValue → ℕ
  | .document d | .array d => 1 + max 1 (levelsAll d)
  | _ => 1

def levelsAll : List (CString × BsonValue) → ℕ
  | [] => 0
  | (_,value)::rest => max (levels value) (levelsAll rest)

end

/-- Corruption found at a depth when `touched` levels have been written or cleared: the path does
not fit if its last slot comes at the end of the allocation, and it is empty if at the root the
element before was a document or array. -/
def overrunsAt (depth touched : ℕ) (afterCompound : Bool) : Bool :=
  if depth = 0 then afterCompound else depth = touched && depth % fieldPathExpansion = 0

mutual

/-- Visiting an element at a depth leads to corruption where the path overruns. -/
def overruns (L : Libbson) (depth touched : ℕ) : BsonValue → Bool
  | .document d | .array d => overrunsAll L (depth+1) (max touched (depth+1)) false d
  | .codeWithScope _ scope => overrunsAll L 0 0 false scope
  | _ => false

def overrunsAll (L : Libbson) (depth touched : ℕ) (afterCompound : Bool) :
    List (CString × BsonValue) → Bool
  | [] => false
  | (key,value)::rest =>
    if L.keyValid key && L.textValid value then
      if accepts L value then
        overrunsAll L depth (max touched (depth + levels value)) value.isCompound rest
      else overruns L depth touched value
    else overrunsAt depth touched afterCompound

end

def Overruns (L : Libbson) (d : Doc) : Prop := overrunsAll L 0 0 false d = true

end Phongo
