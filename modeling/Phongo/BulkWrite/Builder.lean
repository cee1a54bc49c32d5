import Mathlib.Tactic.Common
import Phongo.Manager.Construct

/-! `MongoDB\Driver\BulkWrite`: the methods that add operations.
The application's code that a call runs comes before its work on the bulk, or after it, so that
what this code does to the same bulk counts as calls before or after. -/
namespace Phongo

inductive BulkOperation
  | insert (document : Doc)
  | updateOne (selector document opts : Doc)
  | updateMany (selector document opts : Doc)
  | replaceOne (selector document opts : Doc)
  | removeOne (selector opts : Doc)
  | removeMany (selector opts : Doc)

/-- `mongoc_bulk_operation_t` -/
structure MongocBulk where
  operations : List BulkOperation
  ordered : Bool
  bypassDocumentValidation : Option Bool
  database : Option CString
  collection : Option CString
  client : Option ℕ
  hint : UInt32
  clientSession : Option ℕ
  writeConcern : Option WriteConcern

/-- `php_phongo_bulkwrite_t` -/
structure BulkWrite where
  bulk : MongocBulk
  numOps : ℕ
  ordered : Bool
  /-- nothing for `PHONGO_BULKWRITE_BYPASS_UNSET` -/
  bypass : Option Bool
  database : Option CString
  collection : Option CString
  executed : Bool
  /-- the Session object -/
  session : Option ℕ

/-- The answers of PHP, of the application's code and of libmongoc to a BulkWrite. -/
structure BulkOutside where
  libbson : Libbson
  userland : Userland
  /-- the exception of `zend_parse_parameters` -/
  parameterError : Exception
  /-- the exception made of an error of `mongoc_bulk_operation_*_with_opts` -/
  refuses : MongocBulk → BulkOperation → Option Exception

/-- `php_array_fetchc_bool` on an options array that need not be given. -/
def fetchBool (options : Option Options) (key : String) : Bool :=
  (options.bind (·.fetch key)).any Zval.isTrue

/-- `php_phongo_bulkwrite_update_has_operators` -/
def updateHasOperators (bupdate : Doc) : Bool := bupdate.any fun e => e.1.bytes.contains 36

/-- The loop of `php_phongo_bulkwrite_update_is_pipeline`, which an empty document fails. -/
def updateIsPipelineFrom (i : ℕ) : Doc → Bool
  | [] => i ≠ 0
  | (key,value)::rest =>
    if key.bytes = digits i then
      match value with
      | .document ((child,_)::_) =>
        child.bytes.head? = some 36 && updateIsPipelineFrom (i+1) rest
      | _ => false
    else false

def updateIsPipeline (bupdate : Doc) : Bool := updateIsPipelineFrom 0 bupdate

/-- The loop of `php_phongo_bulkwrite_bson_array_has_valid_keys` -/
def hasValidKeysFrom (count : ℕ) : Doc → Bool
  | [] => true
  | (key,_)::rest => key.bytes = digits count && hasValidKeysFrom (count+1) rest

def bsonArrayHasValidKeys (array : Doc) : Bool := hasValidKeysFrom 0 array

namespace BulkWrite

/-- `BulkWrite::__construct` -/
def construct (options : Option Options) : BulkWrite :=
  let ordered := match options.bind (·.fetch "ordered") with
    | some z => z.isTrue
    | none => true
  let bypass := (options.bind (·.fetch "bypassDocumentValidation")).map Zval.isTrue
  { bulk := ⟨[],ordered,bypass,none,none,none,0,none,none⟩
    numOps := 0
    ordered := ordered
    bypass := bypass
    database := none
    collection := none
    executed := false
    session := none }

/-- `BulkWrite::count` -/
def count (b : BulkWrite) : ℕ := b.numOps

def append (b : BulkWrite) (op : BulkOperation) : BulkWrite :=
  { b with
    bulk := { b.bulk with operations := b.bulk.operations ++ [op] }
    numOps := b.numOps + 1 }

end BulkWrite

/-- What a method leaves behind: the BulkWrite, its return value and the exceptions. -/
structure BulkResult where
  write : BulkWrite
  value : Zval
  exceptions : Pending

section
variable (E : BulkOutside)

/-- `php_phongo_zval_to_bson` and the test of `EG(exception)` after it. -/
def BulkOutside.convert (z : Zval) : Attempt Exception Doc := do
  let document ← fun eg =>
    let r := zvalToBson E.libbson E.userland z .none eg
    (some r.1,r.2.2)
  Attempt.check
  return document

/-- What the next two functions begin with. -/
def BulkOutside.optsConvert (key : String) (value : Zval) : Attempt Exception Doc :=
  if value.isArrayOrObject then E.convert value
  else Attempt.throw (invalidArgument "Expected \"%s\" option to be array or object, %s given"
    [.bytes (ascii key),.bytes value.classOrTypeName])

/-- `php_phongo_bulkwrite_opts_append_array` -/
def BulkOutside.optsAppendArray (opts : Doc) (key : String) (value : Zval) :
    Attempt Exception Doc := do
  let b ← E.optsConvert key value
  if bsonArrayHasValidKeys b then return opts ++ [(CString.lit key,.array b)]
  else Attempt.throw (invalidArgument "\"%s\" option has invalid keys for a BSON array"
    [.bytes (ascii key)])

/-- `php_phongo_bulkwrite_opts_append_document` -/
def BulkOutside.optsAppendDocument (opts : Doc) (key : String) (value : Zval) :
    Attempt Exception Doc := do
  let b ← E.optsConvert key value
  return opts ++ [(CString.lit key,.document b)]

/-- `PHONGO_BULKWRITE_OPT_ARRAY` -/
def BulkOutside.optArray (options : Option Options) (key : String) (opts : Doc) :
    Attempt Exception Doc :=
  match options.bind (·.fetch key) with
  | some value => E.optsAppendArray opts key value
  | none => pure opts

/-- `PHONGO_BULKWRITE_OPT_DOCUMENT` -/
def BulkOutside.optDocument (options : Option Options) (key : String) (opts : Doc) :
    Attempt Exception Doc :=
  match options.bind (·.fetch key) with
  | some value => E.optsAppendDocument opts key value
  | none => pure opts

/-- `php_phongo_bulkwrite_opt_hint` -/
def BulkOutside.optHint (options : Option Options) (opts : Doc) : Attempt Exception Doc :=
  match options.bind (·.fetch "hint") with
  | none => pure opts
  | some (.string s) => pure (opts ++ [(CString.lit "hint",.utf8 s)])
  | some value =>
    if value.isArrayOrObject then E.optDocument options "hint" opts
    else Attempt.throw (invalidArgument
      "Expected \"hint\" option to be string, array, or object, %s given"
      [.bytes value.classOrTypeName])

/-- `php_phongo_bulkwrite_update_apply_options` -/
def BulkOutside.updateApplyOptions (options : Option Options) : Attempt Exception Doc := do
  let opts := [(CString.lit "multi",.bool (fetchBool options "multi")),
    (CString.lit "upsert",.bool (fetchBool options "upsert"))]
  let opts ← E.optArray options "arrayFilters" opts
  let opts ← E.optDocument options "collation" opts
  E.optHint options opts

/-- `php_phongo_bulkwrite_delete_apply_options` -/
def BulkOutside.deleteApplyOptions (options : Option Options) : Attempt Exception Doc := do
  let opts := [(CString.lit "limit",.int32 (if fetchBool options "limit" then 1 else 0))]
  let opts ← E.optDocument options "collation" opts
  E.optHint options opts

/-- A parameter `A` of `zend_parse_parameters`. -/
def BulkOutside.parseArrayOrObject (z : Zval) : Attempt Exception Zval :=
  if z.isArrayOrObject then pure z else Attempt.throw E.parameterError

/-- A parameter `a!`. -/
def BulkOutside.parseOptions : Zval → Attempt Exception (Option Options)
  | .null => pure none
  | .array _ els => pure (some els)
  | _ => Attempt.throw E.parameterError

/-- What `BulkWrite::update` does before it gives the operation to libmongoc. -/
def BulkOutside.updateOperation (zquery zupdate zoptions : Zval) :
    Attempt Exception BulkOperation := do
  let zquery ← E.parseArrayOrObject zquery
  let zupdate ← E.parseArrayOrObject zupdate
  let options ← E.parseOptions zoptions
  let bquery ← E.convert zquery
  let bupdate ← E.convert zupdate
  let boptions ← E.updateApplyOptions options
  if updateHasOperators bupdate || updateIsPipeline bupdate then
    return if fetchBool options "multi" then .updateMany bquery bupdate boptions
      else .updateOne bquery bupdate boptions
  else if fetchBool options "multi" then
    Attempt.throw (invalidArgument
      "Replacement document conflicts with true \"multi\" option" [])
  else return .replaceOne bquery bupdate boptions

/-- What `BulkWrite::delete` does before it gives the operation to libmongoc. -/
def BulkOutside.deleteOperation (zquery zoptions : Zval) : Attempt Exception BulkOperation := do
  let zquery ← E.parseArrayOrObject zquery
  let options ← E.parseOptions zoptions
  let bquery ← E.convert zquery
  let boptions ← E.deleteApplyOptions options
  return if fetchBool options "limit" then .removeOne bquery boptions
    else .removeMany bquery boptions

/-- `mongoc_bulk_operation_*_with_opts`, the exception made of its error, and the count. -/
def BulkOutside.add (op : BulkOperation) (b : BulkWrite) : Throws BulkWrite :=
  match E.refuses b.bulk op with
  | some e => .error e
  | none => .ok (b.append op)

/-- `php_phongo_bulkwrite_extract_id` -/
def BulkOutside.extractId (doc : Doc) : Zval × Pending :=
  let map := { Typemap.default with rootType := .nativeArray }
  let r := bsonToZvalEx E.libbson E.userland (.read doc true) { BsonState.init with map := map } []
  if r.ok then
    match r.state.zchild with
    | .array _ els => ((Options.fetch els "_id").getD .null,r.exceptions)
    | _ => (.null,r.exceptions)
  else (.null,r.exceptions)

/-- The end of `BulkWrite::update` and of `BulkWrite::delete`. -/
def BulkOutside.addOperation (operation : Attempt Exception BulkOperation) (b : BulkWrite) :
    BulkResult :=
  match operation [] with
  | (none,eg) => ⟨b,.null,eg⟩
  | (some op,eg) =>
    match E.add op b with
    | .error e => ⟨b,.null,e::eg⟩
    | .ok b => ⟨b,.null,eg⟩

/-- `BulkWrite::insert` -/
def BulkOutside.insert (zdocument : Zval) (b : BulkWrite) : BulkResult :=
  if zdocument.isArrayOrObject then
    let (bdocument,bsonOut,eg) := zvalToBson E.libbson E.userland zdocument ⟨true,true⟩ []
    if eg = [] then
      match E.add (.insert bdocument) b with
      | .error e => ⟨b,.null,[e]⟩
      | .ok b =>
        match bsonOut with
        | none =>
          ⟨b,.null,throwException .logic
            "Did not receive result from bulk write. Please file a bug report." [] []⟩
        | some bsonOut =>
          let (id,eg) := E.extractId bsonOut
          ⟨b,id,eg⟩
    else ⟨b,.null,eg⟩
  else ⟨b,.null,[E.parameterError]⟩

/-- `BulkWrite::update` -/
def BulkOutside.update (zquery zupdate zoptions : Zval) (b : BulkWrite) : BulkResult :=
  E.addOperation (E.updateOperation zquery zupdate zoptions) b

/-- `BulkWrite::delete` -/
def BulkOutside.delete (zquery zoptions : Zval) (b : BulkWrite) : BulkResult :=
  E.addOperation (E.deleteOperation zquery zoptions) b

/-- A call of one of the three methods. -/
inductive BulkCall
  | insert (document : Zval)
  | update (query newObj updateOptions : Zval)
  | delete (query deleteOptions : Zval)

def BulkOutside.call (b : BulkWrite) : BulkCall → BulkResult
  | .insert zdocument => E.insert zdocument b
  | .update zquery zupdate zoptions => E.update zquery zupdate zoptions b
  | .delete zquery zoptions => E.delete zquery zoptions b

end

end Phongo
