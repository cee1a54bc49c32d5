import Mathlib.Tactic.Common
import Phongo.Php.Bytes

/-! Exceptions of the driver and of userland code. -/
namespace Phongo

/-- `php_phongo_error_domain_t`. -/
inductive ErrorDomain
  | invalidArgument | logic | runtime | unexpectedValue | mongocFailed | connectionFailed
  deriving DecidableEq

/-- Arguments of a message format. A field path is kept as its elements: `path` leads into
the PHP value being encoded, `bsonPath` into the BSON being decoded. -/
inductive Arg
  | bytes (s : Bytes)
  | path (elements : List CString)
  | bsonPath (elements : List CString)
  | num (n : ℤ)
  deriving DecidableEq

/-- A driver exception keeps its format and arguments; userland code throws anything else. -/
inductive Exception
  | phongo (domain : ErrorDomain) (format : String) (args : List Arg)
  | userland (id : ℕ)
  deriving DecidableEq

def invalidArgument (format : String) (args : List Arg) : Exception :=
  .phongo .invalidArgument format args

/-- `EG(exception)` with its chain of previous exceptions, newest first. -/
abbrev Pending := List Exception

/-- What a call into userland throws, newest first. -/
def thrownBy (ids : List ℕ) : Pending := ids.map .userland

def throwException (domain : ErrorDomain) (format : String) (args : List Arg)
    (eg : Pending) : Pending :=
  .phongo domain format args::eg

def Arg.under (key : CString) : Arg → Arg
  | .path elements => .path (key::elements)
  | a => a

/-- The same exception reported from below `key`. -/
def Exception.under (key : CString) : Exception → Exception
  | .phongo domain format args => .phongo domain format (args.map (Arg.under key))
  | e => e

end Phongo
