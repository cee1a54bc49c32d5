import Phongo.Bson.Decodable
import Phongo.Bson.Persistable
import Phongo.Bson.Reencoding
import Phongo.Bson.Stop
import Phongo.ClientEncryption
import Phongo.Manager.Outcome

/-! Explicit encryption is invisible: a value that is encrypted, stored in a document, read back
and decrypted is the value. -/
namespace Phongo
open OrderedTable Attempt

section
variable {L : Libbson} {U : Userland}

theorem ne_odmFieldName_data : CString.lit "data" ≠ odmFieldName := by decide

/-- `php_phongo_bson_value_to_zval` on the encoding of a value that BSON restores. -/
theorem bsonValueToZval_restored (hL : L.Lawful) {z : Zval} {v : BsonValue}
    (ht : L.textValid v = true) (ha : accepts L v = true)
    (hz : ∀ path, materialise L U .default path [] v = (z,[])) :
    bsonValueToZval L U v [] = (z,[]) := by
  have hkey : L.keyValid (CString.lit "data") = true := keyValid_lit hL.ascii (by decide +kernel)
  obtain ⟨hok,hchild,heg⟩ := single_restored hkey ne_odmFieldName_data ht ha hz
  unfold bsonValueToZval
  simp only [hok,hchild,heg,if_true]
  rfl

theorem bsonValueToZval_pending (v : BsonValue) {eg : Pending} (h : eg ≠ []) :
    (bsonValueToZval L U v eg).2 ≠ [] := by
  have hne := (bsonToZvalEx_stops L U [(CString.lit "data",v)]
    { BsonState.init with map := { Typemap.default with rootType := .nativeArray } } h).2.ne_nil h
  unfold bsonValueToZval
  dsimp only
  split
  · split <;> exact hne
  · exact hne

end

namespace EncryptionOutside
variable {Uri : Type} {E : EncryptionOutside Uri}

/-- What libmongocrypt promises: a ciphertext is a binary value of subtype 6, and decryption gives
back what was encrypted. -/
structure Deciphers (E : EncryptionOutside Uri) : Prop where
  cipher : ∀ {v opts c}, E.clientEncrypt (some v) opts = .ok c → ∃ data, c = .binary 6 data
  inverse : ∀ {v opts c}, E.clientEncrypt (some v) opts = .ok c → E.clientDecrypt (some c) = .ok v

theorem reports_fetchString (options : Options) (key : String) :
    (E.fetchString options key).Reports := by
  unfold fetchString
  cases options.fetch key with
  | none => exact reports_pure _
  | some z => exact (reports_zvalToString E.toOutside z).bind fun _ => reports_pure _

theorem reports_fetchKeyId (options : Options) : (E.fetchKeyId options).Reports := by
  unfold fetchKeyId
  cases options.fetch "keyId" with
  | none => exact reports_pure _
  | some z =>
    have hconvert : (E.toBsonValue z).Reports := fun eg h => by simp [toBsonValue] at h
    exact hconvert.bind fun _ => reports_check.bind fun _ => reports_pure _

theorem reports_encryptOptsFromZval (options : Option Options) :
    (E.encryptOptsFromZval options).Reports := by
  cases options with
  | none => exact reports_pure _
  | some options =>
    exact (reports_fetchKeyId options).bind fun _ => (reports_fetchString options _).bind fun _ =>
      (reports_fetchString options _).bind fun _ => reports_pure _

/-- An `encrypt()` that does not throw. -/
theorem encrypt_quiet {z : Zval} {v : BsonValue} {options : Option Options}
    (hv : encoding E.libbson E.userland [] z = some v)
    (hok : (E.encrypt z options).exceptions = []) :
    ∃ opts c, E.clientEncrypt (some v) opts = .ok c ∧
      (E.encrypt z options).value = (bsonValueToZval E.libbson E.userland c []).1 := by
  have hreports := E.reports_encryptOptsFromZval options []
  unfold encrypt at hok ⊢
  simp only [zvalToBsonValue_of_encoding hv] at hok ⊢
  rcases hopts : E.encryptOptsFromZval options [] with ⟨_ | opts,eg⟩
  · rw [hopts] at hreports
    rw [hopts] at hok
    exact absurd hok (hreports rfl)
  · simp only [hopts] at hok ⊢
    cases hcipher : E.clientEncrypt (some v) opts with
    | error e => simp [hcipher] at hok
    | ok c =>
      simp only [hcipher] at hok ⊢
      by_cases heg : eg = []
      · subst heg
        exact ⟨opts,c,hcipher,rfl⟩
      · exact absurd hok (bsonValueToZval_pending c heg)

/-- `encrypt()` makes a Binary object of a value that BSON restores. -/
theorem encrypt_restored (hL : E.libbson.Lawful) (hE : E.Deciphers) {z : Zval}
    (hz : IsStored E.libbson E.userland z) {options : Option Options}
    (hok : (E.encrypt z options).exceptions = []) :
    ∃ v data opts, IsRestored E.libbson E.userland z ∧
      encoding E.libbson E.userland [] z = some v ∧
      E.clientEncrypt (some v) opts = .ok (.binary 6 data) ∧
      (E.encrypt z options).value = .bson (.binary data 6) := by
  have hrestored := ((isStored_restored hL).1 z).1 hz
  obtain ⟨v,hv,-⟩ := ((isStored_restored hL).1 z).1 hz
  obtain ⟨opts,c,hcipher,hvalue⟩ := encrypt_quiet (hv []) hok
  obtain ⟨data,rfl⟩ := hE.cipher hcipher
  refine ⟨v,data,opts,hrestored,hv [],hcipher,?_⟩
  rw [hvalue,bsonValueToZval_restored hL (z:=.bson (.binary data 6)) rfl rfl fun path => rfl]

theorem isStored_encrypt (hL : E.libbson.Lawful) (hE : E.Deciphers) {z : Zval}
    (hz : IsStored E.libbson E.userland z) {options : Option Options}
    (hok : (E.encrypt z options).exceptions = []) :
    IsStored E.libbson E.userland (E.encrypt z options).value := by
  obtain ⟨v,data,opts,-,-,-,hvalue⟩ := encrypt_restored hL hE hz hok
  rw [hvalue]
  exact ⟨trivial,trivial,rfl⟩

/-- `decrypt()` gives back what was encrypted. -/
theorem decrypt_cipher (hL : E.libbson.Lawful) (hE : E.Deciphers) {z : Zval} {v : BsonValue}
    {data : Bytes} {opts : EncryptOpts} (hz : IsRestored E.libbson E.userland z)
    (hv : encoding E.libbson E.userland [] z = some v)
    (hcipher : E.clientEncrypt (some v) opts = .ok (.binary 6 data)) :
    (E.decrypt (.bson (.binary data 6))).value = z ∧
      (E.decrypt (.bson (.binary data 6))).exceptions = [] := by
  obtain ⟨v',hv',ht,ha,-,hmaterial⟩ := hz
  obtain rfl : v = v' := Option.some.inj (hv.symm.trans (hv' []))
  have hgiven : zvalToBsonValue E.libbson E.userland (.bson (.binary data 6)) [] =
      (some (.binary 6 data),[]) := zvalToBsonValue_of_encoding rfl
  have hclient := hE.inverse hcipher
  have hback := bsonValueToZval_restored hL ht ha hmaterial
  unfold decrypt
  simp only [isBinary,if_true,hgiven,hclient,hback,and_self]

/-- A value that is encrypted, stored in a document together with others, read back and
decrypted is the value, under the default typemap and without an exception. -/
theorem encrypted_roundTrips (hL : E.libbson.Lawful) (hE : E.Deciphers) (z : Zval)
    (hz : IsStored E.libbson E.userland z) (options : Option Options)
    (hok : (E.encrypt z options).exceptions = []) (properties : List (Key × Zval)) (key : Key)
    (hfield : find? properties key = some (E.encrypt z options).value)
    (hdocument : IsStored E.libbson E.userland (.object .stdClass none properties .null)) :
    let encoded :=
      zvalToBson E.libbson E.userland (.object .stdClass none properties .null) .none []
    let decoded := bsonToZvalEx E.libbson E.userland (.read encoded.1 true) BsonState.init []
    encoded.2.2 = [] ∧ decoded.ok = true ∧ decoded.exceptions = [] ∧
      ∃ properties' ciphertext,
        decoded.state.zchild = .object .stdClass none properties' .null ∧
        find? properties' key = some ciphertext ∧ (E.decrypt ciphertext).value = z ∧
        (E.decrypt ciphertext).exceptions = [] := by
  obtain ⟨v,data,opts,hrestored,hv,hcipher,hvalue⟩ := encrypt_restored hL hE hz hok
  obtain ⟨d,hd,haccepts,hroot⟩ := root_restored hL hdocument
  obtain ⟨hfields,hsame⟩ := ((append_encoding E.libbson E.userland).1
    (.object .stdClass none properties .null)).2.1 (Encoder.init []) d rfl hd
  have hencoded : (zvalToBson E.libbson E.userland (.object .stdClass none properties .null)
      .none []).1 = d := hfields
  obtain ⟨hdecoded,hchild,heg⟩ := bsonToZvalEx_fresh (U:=E.userland) haccepts Typemap.default []
  rw [hroot] at hchild heg
  rw [hvalue] at hfield
  simp only [hencoded]
  exact ⟨hsame.exceptions,hdecoded,heg,properties,_,hchild,hfield,
    decrypt_cipher hL hE hrestored hv hcipher⟩

def reversing : EncryptionOutside PlainUri where
  toOutside := Outside.plain
  parameterError := .userland 0
  implementsBinaryInterface _ := false
  clientEncrypt value _ :=
    match value with
    | some (.utf8 s) => .ok (.binary 6 s.reverse)
    | _ => .error (.userland 1)
  clientDecrypt value :=
    match value with
    | some (.binary 6 data) => .ok (.utf8 data.reverse)
    | _ => .error (.userland 1)

theorem deciphers_reversing : reversing.Deciphers where
  cipher := fun {v _ c} h => by
    cases v with
    | utf8 s => exact ⟨s.reverse,(Except.ok.inj h).symm⟩
    | _ => cases h
  inverse := fun {v _ c} h => by
    cases v with
    | utf8 s =>
      obtain rfl := Except.ok.inj h
      simp [reversing]
    | _ => cases h

/-- A name that is stored encrypted beside a number. -/
theorem encrypted_roundTrips_name :
    let z := Zval.string (ascii "Ada")
    let properties : List (Key × Zval) :=
      [(.str (ascii "n"),.long 5),(.str (ascii "name"),(reversing.encrypt z none).value)]
    let encoded :=
      zvalToBson .ascii (.keeping .person) (.object .stdClass none properties .null) .none []
    let decoded := bsonToZvalEx .ascii (.keeping .person) (.read encoded.1 true) BsonState.init []
    encoded.2.2 = [] ∧ decoded.ok = true ∧ decoded.exceptions = [] ∧
      ∃ properties' ciphertext,
        decoded.state.zchild = .object .stdClass none properties' .null ∧
        find? properties' (.str (ascii "name")) = some ciphertext ∧
        (reversing.decrypt ciphertext).value = z ∧
        (reversing.decrypt ciphertext).exceptions = [] := by
  have hz : IsStored reversing.libbson reversing.userland (.string (ascii "Ada")) :=
    (by decide : Libbson.ascii.utf8Validate (ascii "Ada") true = true)
  have hok : (reversing.encrypt (.string (ascii "Ada")) none).exceptions = [] := by
    decide +kernel
  have hcipher := isStored_encrypt Libbson.ascii_lawful deciphers_reversing hz hok
  refine encrypted_roundTrips (E:=reversing) Libbson.ascii_lawful deciphers_reversing
    (.string (ascii "Ada")) hz none hok _ (.str (ascii "name")) rfl
    ⟨rfl,Or.inl ⟨rfl,rfl,⟨by decide,fun e he => ?_⟩,trivial,hcipher,trivial⟩⟩
  rcases List.mem_cons.mp he with rfl | he
  · exact ⟨CString.lit "n",rfl,by decide,ignores_of_ne (by decide) _⟩
  · obtain rfl := List.mem_singleton.mp he
    exact ⟨CString.lit "name",rfl,by decide,ignores_of_ne (by decide) _⟩

end EncryptionOutside

end Phongo
