import Mathlib.Tactic.Common
import Phongo.Bson.Complete
import Phongo.Manager.Options

/-! `MongoDB\Driver\ClientEncryption`: the values given to libmongoc to encrypt and decrypt.
A `bson_value_t` that is not initialised is a missing value here. -/
namespace Phongo

/-- `php_phongo_zval_to_bson_value` -/
def zvalToBsonValue (L : Libbson) (U : Userland) (data : Zval) (eg : Pending) :
    Option BsonValue × Pending :=
  let dataObject := Zval.array none [(.str (ascii "data"),data)]
  let r := zvalToBson L U dataObject .none eg
  ((r.1.find? fun f => f.1 = CString.lit "data").map Prod.snd,r.2.2)

/-- `php_phongo_bson_value_to_zval` -/
def bsonValueToZval (L : Libbson) (U : Userland) (value : BsonValue) (eg : Pending) :
    Zval × Pending :=
  let map := { Typemap.default with rootType := .nativeArray }
  let bson := BsonInput.read [(CString.lit "data",value)] true
  let r := bsonToZvalEx L U bson { BsonState.init with map := map } eg
  if r.ok then
    match r.state.zchild with
    | .array _ els => ((Options.fetch els "data").getD .null,r.exceptions)
    | _ => (.null,r.exceptions)
  else (.null,r.exceptions)

/-- `mongoc_client_encryption_encrypt_opts_t` -/
structure EncryptOpts where
  /-- the `bson_value_t` where it was set -/
  keyId : Option (Option BsonValue)
  keyAltName : Option CString
  algorithm : Option CString

/-- The answers from outside, with those of libmongoc's client encryption. -/
structure EncryptionOutside (Uri : Type) extends Outside Uri where
  /-- the exception of `zend_parse_parameters` -/
  parameterError : Exception
  /-- a class of the application implements `MongoDB\BSON\BinaryInterface` -/
  implementsBinaryInterface : ClassEntry → Bool
  /-- `mongoc_client_encryption_encrypt`, with the exception made of its error -/
  clientEncrypt : Option BsonValue → EncryptOpts → Throws BsonValue
  /-- `mongoc_client_encryption_decrypt`, with the exception made of its error -/
  clientDecrypt : Option BsonValue → Throws BsonValue

/-- A call of `encrypt()` or `decrypt()`: what libmongoc was given, the value returned and the
exceptions. -/
structure EncryptionRun (α : Type) where
  given : Option α
  value : Zval
  exceptions : Pending

namespace EncryptionOutside
variable {Uri : Type} (E : EncryptionOutside Uri)

/-- `php_array_fetch_string`, where the key exists. -/
def fetchString (options : Options) (key : String) : Attempt Exception (Option CString) :=
  match options.fetch key with
  | none => pure none
  | some z => do
    let s ← E.zvalToString z
    return some (CString.ofBytes s)

/-- `php_phongo_zval_to_bson_value`, whose only report is the exception. -/
def toBsonValue (z : Zval) : Attempt Exception (Option BsonValue) := fun eg =>
  let r := zvalToBsonValue E.libbson E.userland z eg
  (some r.1,r.2)

/-- The "keyId" option. -/
def fetchKeyId (options : Options) : Attempt Exception (Option (Option BsonValue)) :=
  match options.fetch "keyId" with
  | none => pure none
  | some z => do
    let keyId ← E.toBsonValue z
    Attempt.check
    return some keyId

/-- `phongo_clientencryption_encrypt_opts_from_zval` -/
def encryptOptsFromZval : Option Options → Attempt Exception EncryptOpts
  | none => pure ⟨none,none,none⟩
  | some options => do
    let keyId ← E.fetchKeyId options
    let keyAltName ← E.fetchString options "keyAltName"
    let algorithm ← E.fetchString options "algorithm"
    return ⟨keyId,keyAltName,algorithm⟩

/-- `phongo_clientencryption_encrypt` -/
def encrypt (zvalue : Zval) (options : Option Options) :
    EncryptionRun (Option BsonValue × EncryptOpts) :=
  let (value,eg) := zvalToBsonValue E.libbson E.userland zvalue []
  match E.encryptOptsFromZval options eg with
  | (none,eg) => ⟨none,.null,eg⟩
  | (some opts,eg) =>
    match E.clientEncrypt value opts with
    | .error e => ⟨some (value,opts),.null,e::eg⟩
    | .ok ciphertext =>
      let (zciphertext,eg) := bsonValueToZval E.libbson E.userland ciphertext eg
      ⟨some (value,opts),zciphertext,eg⟩

/-- An object of a class that implements `MongoDB\BSON\BinaryInterface`. -/
def isBinary : Zval → Bool
  | .bson (.binary _ _) => true
  | .object ce _ _ _ => E.implementsBinaryInterface ce
  | _ => false

/-- `ClientEncryption::decrypt` with `phongo_clientencryption_decrypt` -/
def decrypt (zciphertext : Zval) : EncryptionRun (Option BsonValue) :=
  if E.isBinary zciphertext then
    let (ciphertext,eg) := zvalToBsonValue E.libbson E.userland zciphertext []
    match E.clientDecrypt ciphertext with
    | .error e => ⟨some ciphertext,.null,e::eg⟩
    | .ok value =>
      let (zvalue,eg) := bsonValueToZval E.libbson E.userland value eg
      ⟨some ciphertext,zvalue,eg⟩
  else ⟨none,.null,[E.parameterError]⟩

/-- Converting the value throws. -/
def Raises (z : Zval) : Prop := (zvalToBsonValue E.libbson E.userland z []).2 ≠ []

def Encodable (z : Zval) : Prop := (encoding E.libbson E.userland [] z).isSome

/-- A `bson_value_t` is the complete encoding of a value. -/
def Whole (z : Zval) (value : Option BsonValue) : Prop :=
  ∃ v, value = some v ∧ encoding E.libbson E.userland [] z = some v

/-- Nothing is encrypted unless all of it was converted. -/
structure EncryptsWhole (zvalue : Zval) (options : Option Options) : Prop where
  value : E.Raises zvalue → (E.encrypt zvalue options).given = none
  keyId : ∀ z, options.bind (·.fetch "keyId") = some z → E.Raises z →
    (E.encrypt zvalue options).given = none
  whole : ∀ value opts, (E.encrypt zvalue options).given = some (value,opts) →
    E.Whole zvalue value ∧ ∀ z, options.bind (·.fetch "keyId") = some z →
      ∃ keyId, opts.keyId = some keyId ∧ E.Whole z keyId

/-- Nothing is decrypted unless all of it was converted. -/
structure DecryptsWhole (zciphertext : Zval) : Prop where
  value : E.Raises zciphertext → (E.decrypt zciphertext).given = none
  whole : ∀ value, (E.decrypt zciphertext).given = some value → E.Whole zciphertext value

/-- The value can be encoded, or there is a "keyId" option, after which exceptions are looked
for. -/
def Guarded (zvalue : Zval) (options : Option Options) : Prop :=
  options.bind (·.fetch "keyId") = none → E.Encodable zvalue

end EncryptionOutside

/-- A value that can be encoded is converted as a whole and without an exception. -/
theorem zvalToBsonValue_of_encoding {L : Libbson} {U : Userland} {z : Zval} {v : BsonValue}
    (h : encoding L U [] z = some v) : zvalToBsonValue L U z [] = (some v,[]) := by
  have hnul : (0 : UInt8) ∉ (Key.str (ascii "data")).toStr := by decide
  have hkey : inspectKey false false (.str (ascii "data")) = .append (CString.lit "data") :=
    inspectKey_append hnul false
  have hfields : fieldsEncoding L U [] false false [(.str (ascii "data"),z)] =
      some [(CString.lit "data",v)] := by
    rw [fieldsEncoding,hkey]
    simp only [h,fieldsEncoding]
  obtain ⟨hd,fp,hsame⟩ := closeFields_yields (L:=L) ((append_encoding L U).2 _ false false
    (Encoder.init []) _ rfl hfields)
  simp only [zvalToBsonValue,zvalToBson,internal]
  refine Prod.ext ?_ ?_
  · simp only [hd]
    simp
  · simp only [hsame]
    rfl

namespace EncryptionOutside
variable {Uri : Type} {E : EncryptionOutside Uri}

theorem not_raises_of_encodable {z : Zval} (h : E.Encodable z) : ¬ E.Raises z := by
  obtain ⟨v,hv⟩ := Option.isSome_iff_exists.mp h
  rw [Raises,zvalToBsonValue_of_encoding hv]
  exact fun hne => hne rfl

theorem encodable_of_not_raises {z : Zval} (hcalls : z.CallsThrow) (h : ¬ E.Raises z) :
    E.Encodable z := by
  have hnil : (internal E.libbson E.userland (.array none [(.str (ascii "data"),z)]) .none
      (Encoder.init [])).2.exceptions = [] := not_not.mp h
  obtain ⟨d,hd⟩ := ((encoding_of_noException E.libbson E.userland).1
    (.array none [(.str (ascii "data"),z)]) ⟨hcalls,trivial⟩).2.1 (Encoder.init []) rfl hnil
  have hnul : (0 : UInt8) ∉ (Key.str (ascii "data")).toStr := by decide
  have hfields : fieldsEncoding E.libbson E.userland [] false false
      [(.str (ascii "data"),z)] = some d := hd
  rw [fieldsEncoding,inspectKey_append hnul false] at hfields
  unfold Encodable
  cases hv : encoding E.libbson E.userland [] z with
  | none => simp [hv] at hfields
  | some v => rfl

theorem whole_of_encodable {z : Zval} (h : E.Encodable z) :
    E.Whole z (zvalToBsonValue E.libbson E.userland z []).1 := by
  obtain ⟨v,hv⟩ := Option.isSome_iff_exists.mp h
  exact ⟨v,by rw [zvalToBsonValue_of_encoding hv],hv⟩

theorem Whole.encodable {z : Zval} {value : Option BsonValue} (h : E.Whole z value) :
    E.Encodable z := by
  obtain ⟨v,-,hv⟩ := h
  simp [Encodable,hv]

theorem fetchString_some (options : Options) (key : String) (eg : Pending) :
    ∃ s eg', E.fetchString options key eg = (some s,eg') := by
  have hstring : ∀ z eg, ∃ s eg', E.zvalToString z eg = (some s,eg') := fun z => by
    induction z using Outside.zvalToString.induct with
    | case1 => exact fun eg => ⟨_,_,rfl⟩
    | case2 z ih => exact ih
    | case3 s => exact fun eg => ⟨_,_,rfl⟩
    | case4 z h1 h2 h3 =>
      intro eg
      rw [Outside.zvalToString]
      · exact ⟨_,_,rfl⟩
      · exact h1
      · exact h2
      · exact h3
  unfold fetchString
  cases options.fetch key with
  | none => exact ⟨_,_,rfl⟩
  | some z =>
    obtain ⟨s,eg',hs⟩ := hstring z eg
    exact ⟨_,_,Attempt.bind_of_some hs⟩

/-- Exceptions that were pending before a conversion are pending after it. -/
theorem zvalToBsonValue_pending {z : Zval} {eg : Pending} (h : eg ≠ []) :
    (zvalToBsonValue E.libbson E.userland z eg).2 ≠ [] := by
  obtain ⟨thrown,heq,-⟩ := throws_zvalToBson E.libbson E.userland
    (.array none [(.str (ascii "data"),z)]) .none eg
  intro hnil
  have hboth := heq.symm.trans hnil
  exact h (List.append_eq_nil_iff.mp hboth).2

theorem fetchStrings_some (options : Options) (keyId : Option (Option BsonValue)) (eg : Pending) :
    ∃ opts eg', opts.keyId = keyId ∧
      (do
        let keyAltName ← E.fetchString options "keyAltName"
        let algorithm ← E.fetchString options "algorithm"
        return (⟨keyId,keyAltName,algorithm⟩ : EncryptOpts) : Attempt Exception EncryptOpts) eg =
        (some opts,eg') := by
  obtain ⟨keyAltName,eg',hname⟩ := E.fetchString_some options "keyAltName" eg
  obtain ⟨algorithm,eg'',halgorithm⟩ := E.fetchString_some options "algorithm" eg'
  refine ⟨⟨keyId,keyAltName,algorithm⟩,eg'',rfl,?_⟩
  rw [Attempt.bind_of_some hname,Attempt.bind_of_some halgorithm]
  rfl

theorem encryptOpts_of_none {options : Option Options}
    (h : options.bind (·.fetch "keyId") = none) (eg : Pending) :
    ∃ opts eg', E.encryptOptsFromZval options eg = (some opts,eg') := by
  cases options with
  | none => exact ⟨_,_,rfl⟩
  | some options =>
    have hfetch : options.fetch "keyId" = none := h
    have hkeyId : E.fetchKeyId options eg = (some none,eg) := by
      unfold fetchKeyId
      rw [hfetch]
      rfl
    obtain ⟨opts,eg',-,hopts⟩ := E.fetchStrings_some options none eg
    exact ⟨opts,eg',(Attempt.bind_of_some hkeyId).trans hopts⟩

theorem encryptOpts_of_some {options : Option Options} {z : Zval}
    (h : options.bind (·.fetch "keyId") = some z) (eg : Pending) :
    ((zvalToBsonValue E.libbson E.userland z eg).2 ≠ [] →
      (E.encryptOptsFromZval options eg).1 = none) ∧
    ((zvalToBsonValue E.libbson E.userland z eg).2 = [] → ∃ opts eg',
      opts.keyId = some (zvalToBsonValue E.libbson E.userland z eg).1 ∧
        E.encryptOptsFromZval options eg = (some opts,eg')) := by
  cases options with
  | none => cases h
  | some options =>
    have hfetch : options.fetch "keyId" = some z := h
    rcases hconvert : zvalToBsonValue E.libbson E.userland z eg with ⟨keyId,thrown⟩
    have hkeyId : E.fetchKeyId options eg =
        (if thrown.isEmpty then some (some keyId) else none,thrown) := by
      unfold fetchKeyId
      rw [hfetch]
      have hfirst : E.toBsonValue z eg = (some keyId,thrown) := by
        simp only [toBsonValue,hconvert]
      refine (Attempt.bind_of_some hfirst).trans ?_
      cases thrown <;> rfl
    constructor
    · intro hthrown
      have hnone : E.fetchKeyId options eg = (none,thrown) := by
        cases thrown with
        | nil => exact absurd rfl hthrown
        | cons e thrown => exact hkeyId
      exact congrArg Prod.fst (Attempt.bind_of_none hnone)
    · intro hthrown
      have hnil : thrown = [] := hthrown
      subst hnil
      obtain ⟨opts,eg',hopts,hrest⟩ := E.fetchStrings_some options (some keyId) []
      exact ⟨opts,eg',hopts,(Attempt.bind_of_some hkeyId).trans hrest⟩

/-- What `encrypt()` gives to libmongoc. -/
theorem encrypt_given (zvalue : Zval) (options : Option Options) :
    (options.bind (·.fetch "keyId") = none ∧ ∃ opts, (E.encrypt zvalue options).given =
      some ((zvalToBsonValue E.libbson E.userland zvalue []).1,opts)) ∨
    (∃ z, options.bind (·.fetch "keyId") = some z ∧ (E.Raises zvalue ∨ E.Raises z) ∧
      (E.encrypt zvalue options).given = none) ∨
    (∃ z opts, options.bind (·.fetch "keyId") = some z ∧ ¬ E.Raises zvalue ∧ ¬ E.Raises z ∧
      opts.keyId = some (zvalToBsonValue E.libbson E.userland z []).1 ∧
      (E.encrypt zvalue options).given =
        some ((zvalToBsonValue E.libbson E.userland zvalue []).1,opts)) := by
  have hgiven : ∀ opts eg', E.encryptOptsFromZval options
        (zvalToBsonValue E.libbson E.userland zvalue []).2 = (some opts,eg') →
      (E.encrypt zvalue options).given =
        some ((zvalToBsonValue E.libbson E.userland zvalue []).1,opts) := fun opts eg' h => by
    unfold encrypt
    simp only [h]
    split <;> rfl
  have hrefused : (E.encryptOptsFromZval options
        (zvalToBsonValue E.libbson E.userland zvalue []).2).1 = none →
      (E.encrypt zvalue options).given = none := fun h => by
    unfold encrypt
    rcases hopts : E.encryptOptsFromZval options
      (zvalToBsonValue E.libbson E.userland zvalue []).2 with ⟨opts,eg'⟩
    rw [hopts] at h
    obtain rfl : opts = none := h
    simp only [hopts]
  cases hkeyId : options.bind (·.fetch "keyId") with
  | none =>
    obtain ⟨opts,eg',hopts⟩ := E.encryptOpts_of_none hkeyId
      (zvalToBsonValue E.libbson E.userland zvalue []).2
    exact Or.inl ⟨rfl,opts,hgiven opts eg' hopts⟩
  | some z =>
    obtain ⟨hthrows,hconverts⟩ := E.encryptOpts_of_some hkeyId
      (zvalToBsonValue E.libbson E.userland zvalue []).2
    refine Or.inr ?_
    by_cases hvalue : E.Raises zvalue
    · exact Or.inl ⟨z,rfl,Or.inl hvalue,hrefused (hthrows (zvalToBsonValue_pending hvalue))⟩
    · have hnil : (zvalToBsonValue E.libbson E.userland zvalue []).2 = [] := not_not.mp hvalue
      rw [hnil] at hthrows hconverts
      by_cases hz : E.Raises z
      · exact Or.inl ⟨z,rfl,Or.inr hz,hrefused (by rw [hnil]; exact hthrows hz)⟩
      · obtain ⟨opts,eg',hopts,hrest⟩ := hconverts (not_not.mp hz)
        exact Or.inr ⟨z,opts,rfl,hvalue,hz,hopts,hgiven opts eg' (by rw [hnil]; exact hrest)⟩

/-- With a "keyId" option the calls of `bsonSerialize()` have to throw where they fail. -/
theorem encryptsWhole_iff {zvalue : Zval} {options : Option Options}
    (hcalls : ∀ z, options.bind (·.fetch "keyId") = some z → zvalue.CallsThrow ∧ z.CallsThrow) :
    E.EncryptsWhole zvalue options ↔ E.Guarded zvalue options := by
  unfold Guarded
  rcases E.encrypt_given zvalue options with ⟨hnone,opts,hgiven⟩ | ⟨z,hsome,hraises,hgiven⟩ |
    ⟨z,opts,hsome,hvalue,hz,hopts,hgiven⟩
  · constructor
    · intro h _
      exact (h.whole _ opts hgiven).1.encodable
    · intro h
      refine ⟨fun hraises => absurd hraises (not_raises_of_encodable (h hnone)),fun z hz => ?_,
        fun value opts' hgiven' => ?_⟩
      · cases hnone.symm.trans hz
      · obtain ⟨rfl,-⟩ := Prod.mk.inj (Option.some.inj (hgiven.symm.trans hgiven'))
        refine ⟨whole_of_encodable (h hnone),fun z hz => ?_⟩
        cases hnone.symm.trans hz
  · refine iff_of_true ⟨fun _ => hgiven,fun _ _ _ => hgiven,fun value opts h => ?_⟩ fun hnone => ?_
    · cases hgiven.symm.trans h
    · cases hsome.symm.trans hnone
  · obtain ⟨hvalueCalls,hzCalls⟩ := hcalls z hsome
    refine iff_of_true ⟨fun hraises => absurd hraises hvalue,fun z' hz' hraises => ?_,
      fun value opts' hgiven' => ?_⟩ fun hnone => ?_
    · obtain rfl := Option.some.inj (hsome.symm.trans hz')
      exact absurd hraises hz
    · obtain ⟨rfl,rfl⟩ := Prod.mk.inj (Option.some.inj (hgiven.symm.trans hgiven'))
      refine ⟨whole_of_encodable (encodable_of_not_raises hvalueCalls hvalue),fun z' hz' => ?_⟩
      obtain rfl := Option.some.inj (hsome.symm.trans hz')
      exact ⟨_,hopts,whole_of_encodable (encodable_of_not_raises hzCalls hz)⟩
    · cases hsome.symm.trans hnone

theorem decryptsWhole_iff (zciphertext : Zval) :
    E.DecryptsWhole zciphertext ↔ (E.isBinary zciphertext = true → E.Encodable zciphertext) := by
  cases hbinary : E.isBinary zciphertext with
  | false =>
    have hgiven : (E.decrypt zciphertext).given = none := by simp [decrypt,hbinary]
    refine iff_of_true ⟨fun _ => hgiven,fun value h => ?_⟩ nofun
    cases hgiven.symm.trans h
  | true =>
    have hgiven : (E.decrypt zciphertext).given =
        some (zvalToBsonValue E.libbson E.userland zciphertext []).1 := by
      unfold decrypt
      rw [if_pos hbinary]
      dsimp only
      split <;> rfl
    constructor
    · intro h _
      exact (h.whole _ hgiven).encodable
    · intro h
      refine ⟨fun hraises => absurd hraises (not_raises_of_encodable (h rfl)),fun value h' => ?_⟩
      obtain rfl := Option.some.inj (hgiven.symm.trans h')
      exact whole_of_encodable (h rfl)

/-- `encrypt()` and `decrypt()` give libmongoc complete encodings only, and nothing when a
conversion throws, exactly if what they are given can be encoded, or if `encrypt()` has the one
option after which it looks for exceptions. -/
theorem gives_whole_iff (E : EncryptionOutside Uri) :
    (∀ zvalue options,
      (∀ z, options.bind (·.fetch "keyId") = some z → zvalue.CallsThrow ∧ z.CallsThrow) →
        (E.EncryptsWhole zvalue options ↔ E.Guarded zvalue options)) ∧
    (∀ zciphertext, E.DecryptsWhole zciphertext ↔
      (E.isBinary zciphertext = true → E.Encodable zciphertext)) :=
  ⟨fun _ _ => encryptsWhole_iff,decryptsWhole_iff⟩

def plain : EncryptionOutside PlainUri where
  toOutside := Outside.plain
  parameterError := .userland 0
  implementsBinaryInterface _ := false
  clientEncrypt value _ := .ok (value.getD .null)
  clientDecrypt value := .ok (value.getD .null)

/-- With a "keyId" option a string that is no UTF-8 is not encrypted. -/
theorem encryptsWhole_withKeyId : plain.EncryptsWhole (.string [255])
    (some [(.str (ascii "keyId"),.bson (.binary (List.replicate 16 0) 4))]) := by
  refine ((gives_whole_iff plain).1 _ _ fun z hz => ?_).mpr fun hnone => by cases hnone
  cases hz
  exact ⟨trivial,trivial⟩

/-- A string that is no UTF-8 throws, and something is encrypted all the same. -/
theorem not_gives_whole :
    ¬ ∀ (E : EncryptionOutside PlainUri) (zvalue : Zval) (options : Option Options),
      E.EncryptsWhole zvalue options := by
  intro h
  have hraises : (zvalToBsonValue plain.libbson plain.userland (.string [255]) []).2 ≠ [] := by
    decide +kernel
  have hgiven := (h plain (.string [255]) none).value hraises
  have hsome : (plain.encrypt (.string [255]) none).given.isSome = true := by decide +kernel
  rw [hgiven] at hsome
  cases hsome

end EncryptionOutside

end Phongo
