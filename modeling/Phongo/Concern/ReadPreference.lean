import Mathlib.Tactic.Common
import Phongo.Concern.Object
import Phongo.Manager.Options

/-! `ReadPreference.c`: read preferences, their initialisation and their export. -/
namespace Phongo
open OrderedTable

/-- The fields of a `mongoc_read_prefs_t`. -/
structure ReadPrefsFields extends ReadPrefs where
  hedge : Doc

/-- libmongoc's functions on a `mongoc_read_prefs_t`. -/
structure MongocReadPrefs (Rp : Type) where
  new : ReadMode → Rp
  setTags : Rp → Doc → Rp
  setMaxStalenessSeconds : Rp → Int64 → Rp
  setHedge : Rp → Doc → Rp
  getMode : Rp → ReadMode
  getTags : Rp → Doc
  getMaxStalenessSeconds : Rp → Int64
  getHedge : Rp → Doc
  isValid : Rp → Bool

/-- What `mongoc_read_prefs_is_valid` asks for: with primary mode nothing else is set. -/
structure ReadPrefsFields.Valid (rp : ReadPrefsFields) : Prop where
  primary : rp.mode = .primary →
    rp.tags = [] ∧ rp.maxStalenessSeconds = noMaxStaleness ∧ rp.hedge = []
  maxStaleness : rp.maxStalenessSeconds = noMaxStaleness ∨ 0 < rp.maxStalenessSeconds

/-- libmongoc's functions as documented, over the fields of its struct. -/
structure MongocReadPrefs.Lawful {Rp : Type} (M : MongocReadPrefs Rp)
    (fields : Rp → ReadPrefsFields) : Prop where
  new : ∀ mode, fields (M.new mode) = ⟨⟨mode,[],noMaxStaleness⟩,[]⟩
  setTags : ∀ rp tags, fields (M.setTags rp tags) = { fields rp with tags := tags }
  setMaxStalenessSeconds : ∀ rp n, fields (M.setMaxStalenessSeconds rp n) =
    { fields rp with maxStalenessSeconds := n }
  setHedge : ∀ rp hedge, fields (M.setHedge rp hedge) = { fields rp with hedge := hedge }
  getMode : ∀ rp, M.getMode rp = (fields rp).mode
  getTags : ∀ rp, M.getTags rp = (fields rp).tags
  getMaxStalenessSeconds : ∀ rp, M.getMaxStalenessSeconds rp = (fields rp).maxStalenessSeconds
  getHedge : ∀ rp, M.getHedge rp = (fields rp).hedge
  isValid : ∀ rp, M.isValid rp = true ↔ (fields rp).Valid

def MongocReadPrefs.plain : MongocReadPrefs ReadPrefsFields where
  new mode := ⟨⟨mode,[],noMaxStaleness⟩,[]⟩
  setTags rp tags := { rp with tags := tags }
  setMaxStalenessSeconds rp n := { rp with maxStalenessSeconds := n }
  setHedge rp hedge := { rp with hedge := hedge }
  getMode rp := rp.mode
  getTags rp := rp.tags
  getMaxStalenessSeconds rp := rp.maxStalenessSeconds
  getHedge rp := rp.hedge
  isValid rp :=
    (rp.mode ≠ .primary || rp.tags.isEmpty && rp.maxStalenessSeconds = noMaxStaleness &&
      rp.hedge.isEmpty) &&
    (rp.maxStalenessSeconds = noMaxStaleness || 0 < rp.maxStalenessSeconds)

theorem MongocReadPrefs.plain_lawful : plain.Lawful id where
  new _ := rfl
  setTags _ _ := rfl
  setMaxStalenessSeconds _ _ := rfl
  setHedge _ _ := rfl
  getMode _ := rfl
  getTags _ := rfl
  getMaxStalenessSeconds _ := rfl
  getHedge _ := rfl
  isValid rp := by
    simp only [plain,Bool.and_eq_true,Bool.or_eq_true,decide_eq_true_eq,List.isEmpty_iff,
      and_assoc]
    constructor
    · rintro ⟨hprimary,hn⟩
      exact ⟨fun h => hprimary.resolve_left (not_not.mpr h),hn⟩
    · rintro ⟨hprimary,hn⟩
      exact ⟨or_iff_not_imp_left.mpr fun h => hprimary (not_not.mp h),hn⟩

namespace ReadPreferenceObject

def className : Bytes := ascii "MongoDB\\Driver\\ReadPreference"

/-- `php_phongo_readpreference_get_mode_string` -/
def getModeString : ReadMode → Bytes
  | .primary => ascii "primary"
  | .primaryPreferred => ascii "primaryPreferred"
  | .secondary => ascii "secondary"
  | .secondaryPreferred => ascii "secondaryPreferred"
  | .nearest => ascii "nearest"

/-- A tag set that is an array, behind a reference or not, becomes an object. -/
def prepTagset : Zval → Zval
  | .reference z => .reference z.convertToObject
  | z => z.convertToObject

/-- `php_phongo_read_preference_prep_tagsets` -/
def prepTagsets (tagSets : List (Key × Zval)) : List (Key × Zval) :=
  tagSets.map fun e => (e.1,prepTagset e.2)

variable {Rp : Type} (L : Libbson) (U : Userland) (M : MongocReadPrefs Rp)

abbrev Step (Rp : Type) := Rp → Attempt Exception Rp

/-- The tags of an array, which are set though their encoding threw. -/
def setTagSets (invalid notWithPrimary : Exception) (ht : Option ℕ)
    (tagSets : List (Key × Zval)) : Step Rp := fun rp => do
  let tags ← zvalToDoc L U (.array ht (prepTagsets tagSets))
  if ¬ readPreferenceTagsAreValid tags then Attempt.throw invalid
  else if ¬ tags.isEmpty ∧ M.getMode rp = .primary then Attempt.throw notWithPrimary
  else pure (M.setTags rp tags)

/-- The hedge document of an array or object, set where nothing was thrown. -/
def setHedgeDocument (notWithPrimary : Exception) (hedge : Zval) : Step Rp := fun rp =>
  if M.getMode rp = .primary then Attempt.throw notWithPrimary
  else do
    let doc ← zvalToDoc L U hedge
    Attempt.check
    pure (M.setHedge rp doc)

def notValid : Exception := invalidArgument "Read preference is not valid" []

def requireValid : Step Rp := fun rp =>
  if M.isValid rp then pure rp else Attempt.throw notValid

section InitFromHash

def requires (format : String) : Exception := invalidArgument format [.bytes className]

def initMode (props : Props) : Attempt Exception Rp :=
  match props.findStr "mode" with
  | some (.string mode) =>
    Attempt.orThrow
      (requires "%s initialization requires specific values for \"mode\" string field")
      ((readModeNamed (CString.ofBytes mode)).map M.new)
  | _ => Attempt.throw (requires "%s initialization requires \"mode\" field to be string")

/-- `ZVAL_DEREF` -/
def deref : Zval → Zval
  | .reference z => z
  | z => z

def initTags (props : Props) : Step Rp := fun rp =>
  match props.findStr "tags" with
  | none => pure rp
  | some tagSets =>
    match deref tagSets with
    | .array ht els =>
      setTagSets L U M
        (requires "%s initialization requires \"tags\" array field to have zero or more documents")
        (requires ("%s initialization requires \"tags\" array field to not be present " ++
          "with \"primary\" mode")) ht els rp
    | _ => Attempt.throw (requires "%s initialization requires \"tags\" field to be array")

def initMaxStaleness (props : Props) : Step Rp := fun rp =>
  match props.findStr "maxStalenessSeconds" with
  | none => pure rp
  | some (.long n) =>
    if n ≠ noMaxStaleness ∧ M.getMode rp = .primary then
      Attempt.throw (requires ("%s initialization requires \"maxStalenessSeconds\" field to not " ++
        "be present with \"primary\" mode"))
    else if n ≠ noMaxStaleness ∧ n < smallestMaxStalenessSeconds then
      Attempt.throw (invalidArgument
        "%s initialization requires \"maxStalenessSeconds\" integer field to be >= %d"
        [.bytes className,.num smallestMaxStalenessSeconds.toInt])
    else if n ≠ noMaxStaleness ∧ n > 2147483647 then
      Attempt.throw (invalidArgument
        "%s initialization requires \"maxStalenessSeconds\" integer field to be <= %d"
        [.bytes className,.num 2147483647])
    else pure (M.setMaxStalenessSeconds rp n)
  | some _ => Attempt.throw
      (requires "%s initialization requires \"maxStalenessSeconds\" field to be integer")

def initHedge (props : Props) : Step Rp := fun rp =>
  match props.findStr "hedge" with
  | none => pure rp
  | some hedge =>
    if hedge.isArrayOrObject then
      setHedgeDocument L U M
        (requires ("%s initialization requires \"hedge\" field to not be present " ++
          "with \"primary\" mode")) hedge rp
    else Attempt.throw
      (requires "%s initialization requires \"hedge\" field to be an array or object")

def initFields (props : Props) : Step Rp := fun rp => do
  let rp ← initTags L U M props rp
  let rp ← initMaxStaleness M props rp
  let rp ← initHedge L U M props rp
  requireValid M rp

/-- `php_phongo_readpreference_init_from_hash`. Without a mode the object keeps its handle, after
any other failure it has none. -/
def initFromHash (intern : Option Rp) (props : Props) (eg : Pending) : Initialisation Rp :=
  match initMode M props eg with
  | (none,eg) => ⟨false,intern,eg⟩
  | (some rp,eg) =>
    let r := initFields L U M props rp eg
    ⟨r.1.isSome,r.1,r.2⟩

end InitFromHash

section Construct
variable (convertToLong : Zval → Int64)

/-- The `switch` on a mode given as an integer. -/
def readModeNumbered (n : Int64) : Option ReadMode :=
  if n = 1 then some .primary
  else if n = 2 then some .secondary
  else if n = 5 then some .primaryPreferred
  else if n = 6 then some .secondaryPreferred
  else if n = 10 then some .nearest
  else none

def constructMode (mode : Zval) : Attempt Exception Rp :=
  match mode with
  | .long n => Attempt.orThrow (invalidArgument "Invalid mode: %ld" [.num n.toInt])
      ((readModeNumbered n).map M.new)
  | .string s => Attempt.orThrow (invalidArgument "Invalid mode: '%s'" [.bytes (cstr s)])
      ((readModeNamed (CString.ofBytes s)).map M.new)
  | z => Attempt.throw (invalidArgument "Expected mode to be integer or string, %s given"
      [.bytes z.classOrTypeName])

def constructTags (tagSets : Option (List (Key × Zval))) : Step Rp := fun rp =>
  match tagSets with
  | none => pure rp
  | some els => setTagSets L U M
      (invalidArgument "tagSets must be an array of zero or more documents" [])
      (invalidArgument "tagSets may not be used with primary mode" []) none els rp

/-- `php_array_zval_to_long`; `convertToLong` is `convert_to_long`. -/
def zvalToLong : Zval → Int64
  | .reference z => zvalToLong z
  | .null => 0
  | .bool b => if b then 1 else 0
  | .long n => n
  | z => convertToLong z

def constructMaxStaleness (options : Option Options) : Step Rp := fun rp =>
  match options.bind (·.fetch "maxStalenessSeconds") with
  | none => pure rp
  | some z =>
    let n := zvalToLong convertToLong z
    if n ≠ noMaxStaleness ∧ n < smallestMaxStalenessSeconds then
      Attempt.throw (invalidArgument "Expected maxStalenessSeconds to be >= %d, %ld given"
        [.num smallestMaxStalenessSeconds.toInt,.num n.toInt])
    else if n ≠ noMaxStaleness ∧ n > 2147483647 then
      Attempt.throw (invalidArgument "Expected maxStalenessSeconds to be <= %d, %ld given"
        [.num 2147483647,.num n.toInt])
    else if n ≠ noMaxStaleness ∧ M.getMode rp = .primary then
      Attempt.throw (invalidArgument "maxStalenessSeconds may not be used with primary mode" [])
    else pure (M.setMaxStalenessSeconds rp n)

def constructHedge (options : Option Options) : Step Rp := fun rp =>
  match options.bind (·.fetch "hedge") with
  | none => pure rp
  | some hedge =>
    if hedge.isArrayOrObject then
      setHedgeDocument L U M
        (invalidArgument "hedge may not be used with primary mode" []) hedge rp
    else Attempt.throw
      (requires "%s initialization requires \"hedge\" field to be an array or object")

/-- Steps one after the other; a step that ends early leaves the handle of the step before. -/
def runSteps : List (Step Rp) → Rp → Pending → Initialisation Rp
  | [], rp, eg => ⟨true,some rp,eg⟩
  | step::steps, rp, eg =>
    match step rp eg with
    | (some rp,eg) => runSteps steps rp eg
    | (none,eg) => ⟨false,some rp,eg⟩

/-- `ReadPreference::__construct` -/
def construct (intern : Option Rp) (mode : Zval) (tagSets : Option (List (Key × Zval)))
    (options : Option Options) (eg : Pending) : Initialisation Rp :=
  match constructMode M mode eg with
  | (none,eg) => ⟨false,intern,eg⟩
  | (some rp,eg) => runSteps [constructTags L U M tagSets,
      constructMaxStaleness M convertToLong options,constructHedge L U M options,
      requireValid M] rp eg

end Construct

section Export

/-- `PHONGO_BSON_INIT_DEBUG_STATE` -/
def debugMap : Typemap :=
  { Typemap.default with rootType := .nativeArray, documentType := .nativeArray }

/-- The property made of a document, none of an empty one; nothing where it cannot be decoded. -/
def exportDoc (name : String) (map : Typemap) (d : Doc) (eg : Pending) : Option Props × Pending :=
  if d.isEmpty then (some [],eg)
  else
    let r := bsonToZvalEx L U (.read d true) { BsonState.init with map := map } eg
    (if r.ok then some [property name r.state.zchild] else none,r.exceptions)

/-- The properties gathered, and whether all documents were decoded. -/
structure Export where
  complete : Bool
  props : Props
  exceptions : Pending

/-- The common body of `serialize` and the properties, which end early where a document cannot
be decoded; `tagsMap` is the typemap for the tags. -/
def properties (tagsMap : Typemap) (rp : Rp) (eg : Pending) : Export :=
  let props := [property "mode" (.string (getModeString (M.getMode rp)))]
  match exportDoc L U "tags" tagsMap (M.getTags rp) eg with
  | (none,eg) => ⟨false,props,eg⟩
  | (some tags,eg) =>
    let n := M.getMaxStalenessSeconds rp
    let props := props ++ tags ++
      if n ≠ noMaxStaleness then [property "maxStalenessSeconds" (.long n)] else []
    match exportDoc L U "hedge" Typemap.default (M.getHedge rp) eg with
    | (none,eg) => ⟨false,props,eg⟩
    | (some hedge,eg) => ⟨true,props ++ hedge,eg⟩

/-- `PHONGO_BSON_INIT_STATE` with a native array for the root. -/
def propertiesMap : Typemap := { Typemap.default with rootType := .nativeArray }

/-- `php_phongo_readpreference_get_properties_hash` -/
def getPropertiesHash (o : ConcernObject Rp) (isTemp : Bool) (eg : Pending) :
    (Props × ConcernObject Rp) × Pending :=
  match o.handle with
  | none => (o.fill isTemp [],eg)
  | some rp =>
    let r := properties L U M propertiesMap rp eg
    (o.fill isTemp r.props,r.exceptions)

variable (F : SerialFormat)

/-- `ReadPreference::serialize` -/
def serialize (o : Option Rp) (eg : Pending) : Option Bytes × Pending :=
  match o with
  | none => (none,eg)
  | some rp =>
    let r := properties L U M debugMap rp eg
    (if r.complete then some (serializeProps F r.props) else none,r.exceptions)

/-- `ReadPreference::unserialize` on a new object -/
def unserialize (serialized : Bytes) (eg : Pending) : Option (Initialisation Rp) :=
  unserializeMethod F className (fun props eg => some (initFromHash L U M none props eg)) serialized
    eg

end Export

end ReadPreferenceObject
end Phongo
