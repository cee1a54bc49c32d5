import Mathlib.Tactic.Common
import Phongo.Query.Merge

/-! `MongoDB\Driver\Command`: the constructor. -/
namespace Phongo
open OrderedTable Attempt

/-- `php_phongo_command_t` -/
structure Command where
  bson : Doc
  batchSize : UInt32
  maxAwaitTimeMs : UInt32

/-- The fields of a document or array, into which `bson_iter_recurse` goes. -/
def BsonValue.fields : BsonValue → Option Doc
  | .document d => some d
  | .array d => some d
  | _ => none

/-- `bson_iter_find_descendant` of "cursor.batchSize" -/
def findBatchSize (command : Doc) : Option BsonValue :=
  ((find? command (CString.lit "cursor")).bind BsonValue.fields).bind
    (find? · (CString.lit "batchSize"))

/-- `bson_iter_as_int64`, where the iterator holds an integer. -/
def BsonValue.int? : BsonValue → Option Int64
  | .int32 n => some n.toInt64
  | .int64 n => some n
  | _ => none

/-- The size of the batches that a command asks for, 0 where it does not. -/
def commandBatchSize (command : Doc) : UInt32 :=
  match (findBatchSize command).bind BsonValue.int? with
  | none => 0
  | some n => if n ≥ 0 ∧ n ≤ uint32Max then n.toUInt64.toUInt32 else 0

section
variable {Rc : Type} (E : QueryOutside Rc)

/-- `php_phongo_command_init_max_await_time_ms`, the same as that of a Query. -/
def QueryOutside.commandInitMaxAwaitTimeMs (options : Options) : Attempt Exception UInt32 :=
  E.initMaxAwaitTimeMs options

/-- `php_phongo_command_init` -/
def QueryOutside.commandInit (document : Zval) (options : Option Options) :
    Attempt Exception Command := do
  let bson ← E.toBson document
  let batchSize := commandBatchSize bson
  match options with
  | none => return ⟨bson,batchSize,0⟩
  | some options => do
    let maxAwaitTimeMs ← E.commandInitMaxAwaitTimeMs options
    return ⟨bson,batchSize,maxAwaitTimeMs⟩

/-- `Command::__construct`, whose caller gets the object if no exception is pending. -/
def QueryOutside.constructCommand (document options : Zval) : Attempt Exception Command :=
  if document.isArrayOrObject then
    match options with
    | .null => E.commandInit document none
    | .array _ els => E.commandInit document (some els)
    | _ => Attempt.throw E.parameterError
  else Attempt.throw E.parameterError

variable {E}

theorem QueryOutside.constructCommand_eq {document options : Zval} {c : Command}
    (h : E.constructCommand document options [] = (some c,[])) :
    c.bson = E.document document ∧ c.batchSize = commandBatchSize (E.document document) := by
  have hinit : ∀ options, E.commandInit document options [] = (some c,[]) →
      c.bson = E.document document ∧ c.batchSize = commandBatchSize (E.document document) := by
    intro options h
    obtain ⟨bson,eg,hbson,hrest⟩ := bind_eq_some.mp h
    obtain rfl := clean_bind_check bson eg hbson
    obtain rfl := (QueryOutside.toBson_eq hbson).2
    cases options with
    | none =>
      cases hrest
      exact ⟨rfl,rfl⟩
    | some options =>
      obtain ⟨maxAwaitTimeMs,eg,-,hpure⟩ := bind_eq_some.mp hrest
      cases hpure
      exact ⟨rfl,rfl⟩
  unfold constructCommand at h
  split at h
  · cases options with
    | null => exact hinit none h
    | array ht els => exact hinit (some els) h
    | _ => cases h
  · cases h

end

end Phongo
