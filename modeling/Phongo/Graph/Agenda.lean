import Mathlib.Tactic.Common
import Phongo.Bson.Overrun
import Phongo.Graph.Congruence
import Phongo.Lib.Walk

/-! What there is to encode in a value of a heap: the values in its table or in that of what its
`bsonSerialize()` returns, without those under private names, up to a key with a NUL. -/
namespace Phongo
open Walking
namespace Graph
variable {T O R V : Type}

/-- The elements of a loop, up to a key with a NUL, which throws. -/
def loopAgenda (one : V → Agenda (HeapValue T O) → Agenda (HeapValue T O))
    (fromProperties skipOdmField : Bool) :
    List (Key × V) → Agenda (HeapValue T O) → Agenda (HeapValue T O)
  | [],rest => rest
  | (key,v)::els,rest =>
    match inspectKey fromProperties skipOdmField key with
    | .skip => loopAgenda one fromProperties skipOdmField els rest
    | .abort => .throws rest
    | .append _ => one v (loopAgenda one fromProperties skipOdmField els rest)

section
variable (one : V → Agenda (HeapValue T O) → Agenda (HeapValue T O))
  {fromProperties skipOdmField : Bool} {key : Key} (v : V) (els : List (Key × V))

theorem loopAgenda_skip (h : inspectKey fromProperties skipOdmField key = .skip) :
    loopAgenda one fromProperties skipOdmField ((key,v)::els) =
      loopAgenda one fromProperties skipOdmField els := by
  funext rest
  simp [loopAgenda,h]

theorem loopAgenda_abort (h : inspectKey fromProperties skipOdmField key = .abort) :
    loopAgenda one fromProperties skipOdmField ((key,v)::els) = .throws := by
  funext rest
  simp [loopAgenda,h]

theorem loopAgenda_append {name : CString}
    (h : inspectKey fromProperties skipOdmField key = .append name) :
    loopAgenda one fromProperties skipOdmField ((key,v)::els) =
      one v ∘ loopAgenda one fromProperties skipOdmField els := by
  funext rest
  simp [loopAgenda,h]

end

mutual

def plainAgenda (L : Libbson) : Plain → Agenda (HeapValue T O) → Agenda (HeapValue T O)
  | .string s,rest => if L.utf8Validate s true then rest else .throws rest
  | .resource,rest => .throws rest
  | .immutable els,rest => plainsAgenda L false els rest
  | .null,rest | .bool _,rest | .long _,rest | .double _,rest => rest

def plainsAgenda (L : Libbson) (skipOdmField : Bool) :
    List (Key × Plain) → Agenda (HeapValue T O) → Agenda (HeapValue T O)
  | [],rest => rest
  | (key,p)::els,rest =>
    match inspectKey false skipOdmField key with
    | .skip => plainsAgenda L skipOdmField els rest
    | .abort => .throws rest
    | .append _ => plainAgenda L p (plainsAgenda L skipOdmField els rest)

end

section Values
variable (h : PhpHeap T O R) (L : Libbson)

def slotsAgenda (fromProperties skipOdmField : Bool) (t : T)
    (rest : Agenda (HeapValue T O)) : Agenda (HeapValue T O) :=
  loopAgenda (fun slot => .value (deref h slot)) fromProperties skipOdmField (h.elements t) rest

/-- What comes of `bsonSerialize()`. -/
def serializedAgenda (agenda : HeapValue T O → Agenda (HeapValue T O)) :
    Returned T O → Agenda (HeapValue T O)
  | .threw ids => .call (if ids.isEmpty then .done else .throws .done)
  | .value v => .call (if isArrayOrStdClass h v then agenda v else .throws .done)

/-- The table of what a `bsonSerialize()` returned. -/
def returnedAgenda (skipOdmField : Bool) : HeapValue T O → Agenda (HeapValue T O)
  | .plain (.immutable els) => plainsAgenda L skipOdmField els .done
  | .plain _ => .done
  | .array t => slotsAgenda h false skipOdmField t .done
  | .object o =>
    match h.objects o with
    | .user _ table _ => slotsAgenda h false skipOdmField table .done
    | .bson _ _ | .cursorId _ _ => .done

def rootAgenda : HeapValue T O → Agenda (HeapValue T O)
  | .plain (.immutable els) => plainsAgenda L false els .done
  | .plain _ => .done
  | .array t => slotsAgenda h false false t .done
  | .object o =>
    match h.objects o with
    | .bson _ _ => .throws .done
    | .cursorId _ _ => .done
    | .user ce table returned =>
      if ce.isSerializable then
        serializedAgenda h (returnedAgenda h L ce.isPersistable) returned
      else if ce.isType then .throws .done
      else slotsAgenda h true false table .done

def valueAgenda : HeapValue T O → Agenda (HeapValue T O)
  | .plain p => plainAgenda L p .done
  | .array t => slotsAgenda h false false t .done
  | .object o =>
    match h.objects o with
    | .bson _ _ | .cursorId _ _ => .done
    | .user ce table returned =>
      if ce.isType then
        if ce.isSerializable then serializedAgenda h (rootAgenda h L) returned else .throws .done
      else slotsAgenda h true false table .done

def scopeOf : HeapValue T O → Option Doc
  | .plain _ | .array _ => none
  | .object o =>
    match h.objects o with
    | .bson (.javascript _ scope) _ => scope
    | .bson _ _ | .cursorId _ _ | .user _ _ _ => none

/-- Decoding the scope, for the properties of a Javascript object, throws. -/
def scopeThrows (U : Userland) (v : HeapValue T O) : Bool :=
  (scopeOf h v).any fun scope =>
    ! (bsonToZvalEx L U (.read scope true) BsonState.init []).exceptions.isEmpty

def flagged (protects : Bool) (recursive : List T) (around : List (HeapValue T O)) : List T :=
  (if protects then around.filterMap (tableOf h L) else []) ++ recursive

/-- The rules of an encoding, which enters no value whose table is flagged, unless it is without
protection; `throws` is whether coming to a value throws. -/
def rules [DecidableEq T] (throws : HeapValue T O → Bool) (protects : Bool) (recursive : List T) :
    Rules (HeapValue T O) where
  agenda := valueAgenda h L
  throws := throws
  blocks around v :=
    (flagFor protects (tableOf h L v)).any (· ∈ flagged h L protects recursive around)

def ScopeOverruns (v : HeapValue T O) : Prop := ∃ scope, scopeOf h v = some scope ∧ Overruns L scope

end Values

end Graph
end Phongo
