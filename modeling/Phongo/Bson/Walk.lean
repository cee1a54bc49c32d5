import Mathlib.Tactic.Common
import Phongo.Bson.Encode

/-! What an encoding meets on its way: the tables it guards, the names it writes and the
payload of the value objects, in order and before any exception is considered. -/
namespace Phongo

inductive Met
  | table (ht : ℕ)
  | name (key : CString)
  | value (v : BsonValue)

def metTable (ht : Option ℕ) : List Met := ht.toList.map .table

/-- A value for which nothing is appended and nothing thrown: a Serializable object whose
method call yields nothing. -/
def Zval.isSkipped : Zval → Bool
  | .object ce _ _ returned => ce.isSerializable && returned.isUndef
  | .reference z => z.isSkipped
  | _ => false

mutual

/-- Met by `php_phongo_bson_append`. -/
def metByValue (L : Libbson) : Zval → List Met
  | .array ht els => metTable ht ++ metByAll L false false els
  | .bson obj => [.value (bsonObjectValue L obj)]
  | .object ce ht properties returned =>
    metTable ht ++
      if ce.isSerializable then metByInternal L returned else metByAll L true false properties
  | .reference z => metByValue L z
  | _ => []

/-- Met by `php_phongo_zval_to_bson_internal`. -/
def metByInternal (L : Libbson) : Zval → List Met
  | .array _ els => metByAll L false false els
  | .object ce _ properties returned =>
    if ce.isSerializable then metByTable L ce.isPersistable returned
    else metByAll L true false properties
  | _ => []

/-- Met by the loop over what a root's `bsonSerialize()` returned. -/
def metByTable (L : Libbson) (skipOdmField : Bool) : Zval → List Met
  | .array _ els => metByAll L false skipOdmField els
  | .object _ _ properties _ => metByAll L false skipOdmField properties
  | _ => []

/-- Met by the loop over a table, up to a key that ends it. -/
def metByAll (L : Libbson) (fromProperties skipOdmField : Bool) : List (Key × Zval) → List Met
  | [] => []
  | (key,z)::rest =>
    match inspectKey fromProperties skipOdmField key with
    | .skip => metByAll L fromProperties skipOdmField rest
    | .abort => []
    | .append name =>
      (if z.isSkipped then [] else [.name name]) ++ metByValue L z ++
        metByAll L fromProperties skipOdmField rest

end

end Phongo
