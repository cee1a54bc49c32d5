import Mathlib.Tactic.Common
import Phongo.Lib.Reader
import Phongo.Php.Value

/-! PHP's serialization format: `php_var_serialize` and `php_var_unserialize`.
A value is written with its length in front wherever it could contain anything, so that reading
needs no escapes. -/
namespace Phongo
open OrderedTable Reading

/-- How floats and objects of the driver's value classes are written and read back. -/
structure SerialFormat where
  doubleText : UInt64 → Bytes
  readDouble : Bytes → Option UInt64
  /-- the result of an object's `serialize()` -/
  payload : BsonObject → Bytes
  /-- an object of the named class after its `unserialize()` -/
  readPayload : Bytes → Bytes → Option BsonObject
  /-- an object of a class of the application, made of the properties that were read -/
  readObject : Bytes → List (Key × Zval) → Option Zval

def SerialFormat.object (F : SerialFormat) (name : Bytes) (properties : List (Key × Zval)) :
    Option Zval :=
  if name = ClassEntry.stdClass.name then some (.object .stdClass none properties .null)
  else F.readObject name properties

section Writing

def quoted (s : Bytes) : Bytes := digits s.length ++ ascii ":\"" ++ s ++ ascii "\""

def serializeKey : Key → Bytes
  | .int n => ascii "i:" ++ longToStr n ++ ascii ";"
  | .str s => ascii "s:" ++ quoted s ++ ascii ";"

def braced (n : ℕ) (entries : Bytes) : Bytes :=
  digits n ++ ascii ":\x7b" ++ entries ++ ascii "\x7d"

mutual

/-- `php_var_serialize` -/
def varSerialize (F : SerialFormat) : Zval → Bytes
  | .bool b => ascii "b:" ++ digits b.toNat ++ ascii ";"
  | .long n => ascii "i:" ++ longToStr n ++ ascii ";"
  | .double bits => ascii "d:" ++ F.doubleText bits ++ ascii ";"
  | .string s => ascii "s:" ++ quoted s ++ ascii ";"
  | .array _ els => ascii "a:" ++ braced els.length (serializeEntries F els)
  | .object ce _ properties _ =>
    ascii "O:" ++ quoted ce.name ++ ascii ":" ++
      braced properties.length (serializeEntries F properties)
  | .bson obj =>
    ascii "C:" ++ quoted obj.className ++ ascii ":" ++
      braced (F.payload obj).length (F.payload obj)
  | .reference z => varSerialize F z
  | .null | .undef _ | .cursorId _ => ascii "N;"
  | .resource => ascii "i:0;"

def serializeEntries (F : SerialFormat) : List (Key × Zval) → Bytes
  | [] => []
  | (key,z)::rest => serializeKey key ++ varSerialize F z ++ serializeEntries F rest

end

end Writing

section Reading

def isDigit (b : UInt8) : Bool := 48 ≤ b && b ≤ 57

def readNat : Reader UInt8 ℕ := do
  let ds ← takeWhile isDigit
  if ds.isEmpty then failure else return (decimal ds).toNat

def readSign : Reader UInt8 Bool := fun
  | 45::rest => some (true,rest)
  | 43::rest => some (false,rest)
  | rest => some (false,rest)

def readInt : Reader UInt8 Int64 := do
  let negative ← readSign
  let n ← readNat
  return if negative then Int64.ofInt (-(n : ℤ)) else Int64.ofNat n

def readQuoted : Reader UInt8 Bytes := do
  let n ← readNat
  expect (ascii ":\"")
  let s ← take n
  expect (ascii "\"")
  return s

def readTaggedKey (tag : Bytes) : Reader UInt8 Key := do
  if tag = ascii "i:" then
    let n ← readInt
    expect (ascii ";")
    return .int n
  else if tag = ascii "s:" then
    let s ← readQuoted
    expect (ascii ";")
    return .str s
  else failure

def readKey : Reader UInt8 Key := do
  let tag ← take 2
  readTaggedKey tag

def arrayKey : Key → Key
  | .int n => .int n
  | .str s => symtable s

def propertyKey (key : Key) : Key := .str key.toStr

/-- `process_nested_data` -/
def readEntries (read : Reader UInt8 Zval) (toKey : Key → Key) :
    ℕ → List (Key × Zval) → Reader UInt8 (List (Key × Zval))
  | 0,t => return t
  | n+1,t => do
    let key ← readKey
    let z ← read
    readEntries read toKey n (update t (toKey key) z)

/-- A number and what `body` reads in braces. -/
def readBraced {α : Type} (body : ℕ → Reader UInt8 α) : Reader UInt8 α := do
  let n ← readNat
  expect (ascii ":\x7b")
  let a ← body n
  expect (ascii "\x7d")
  return a

def orFail {α : Type} : Option α → Reader UInt8 α
  | some a => return a
  | none => failure

/-- `php_var_unserialize_internal` after the two bytes that give the type; `read` reads the
elements. References are not read. -/
def readTagged (F : SerialFormat) (read : Reader UInt8 Zval) (tag : Bytes) : Reader UInt8 Zval := do
  if tag = ascii "N;" then return .null
  else if tag = ascii "b:" then
    let n ← readInt
    expect (ascii ";")
    return .bool (n ≠ 0)
  else if tag = ascii "i:" then
    let n ← readInt
    expect (ascii ";")
    return .long n
  else if tag = ascii "d:" then
    let text ← takeWhile (· ≠ 59)
    expect (ascii ";")
    let bits ← orFail (F.readDouble text)
    return .double bits
  else if tag = ascii "s:" then
    let s ← readQuoted
    expect (ascii ";")
    return .string s
  else if tag = ascii "a:" then
    let els ← readBraced fun n => readEntries read arrayKey n []
    return .array none els
  else if tag = ascii "O:" then
    let name ← readQuoted
    expect (ascii ":")
    let properties ← readBraced fun n => readEntries read propertyKey n []
    orFail (F.object name properties)
  else if tag = ascii "C:" then
    let name ← readQuoted
    expect (ascii ":")
    let payload ← readBraced take
    let obj ← orFail (F.readPayload name payload)
    return .bson obj
  else failure

/-- `php_var_unserialize`, to a depth. -/
def varUnserialize (F : SerialFormat) : ℕ → Reader UInt8 Zval
  | 0 => failure
  | depth+1 => do
    let tag ← take 2
    readTagged F (varUnserialize F depth) tag

end Reading

section RoundTrip

theorem isDigit_of_mem_digits {m : ℕ} {b : UInt8} (h : b ∈ digits m) : isDigit b = true := by
  have hb := toNat_of_mem_digits h
  simp only [isDigit,Bool.and_eq_true,decide_eq_true_eq,UInt8.le_iff_toNat_le]
  exact hb

theorem digits_ne_nil (m : ℕ) : digits m ≠ [] := by
  simp [digits]

theorem reads_readNat (m : ℕ) : ReadsUntil isDigit readNat (digits m) m := by
  intro b rest hb
  have hd := reads_takeWhile (p:=isDigit) (fun _ h => isDigit_of_mem_digits (m:=m) h) b rest hb
  rw [readNat,run_bind,hd]
  simp [digits_ne_nil,decimal_digits]
  rfl

theorem readSign_of_digit {b : UInt8} (rest : Bytes) (h : isDigit b = true) :
    readSign (b::rest) = some (false,b::rest) := by
  unfold readSign
  split
  · rename_i heq
    obtain ⟨rfl,-⟩ := List.cons.inj heq
    exact absurd h (by decide)
  · rename_i heq
    obtain ⟨rfl,-⟩ := List.cons.inj heq
    exact absurd h (by decide)
  · rfl

theorem ofInt_of_toInt_eq {n : Int64} {k : ℤ} (h : n.toInt = k) : Int64.ofInt k = n := by
  rw [← h,Int64.ofInt_toInt]

theorem reads_readInt (n : Int64) : ReadsUntil isDigit readInt (longToStr n) n := by
  intro b rest hb
  unfold longToStr
  split
  · rename_i m hm
    obtain ⟨d,ds,hds⟩ := List.exists_cons_of_ne_nil (digits_ne_nil m)
    have hd : isDigit d = true := isDigit_of_mem_digits (m:=m) (by simp [hds])
    have hsign := readSign_of_digit (ds ++ b::rest) hd
    have hnat := reads_readNat m b rest hb
    rw [hds] at hnat ⊢
    rw [readInt,run_bind,List.cons_append,hsign]
    simp only [Option.bind_some]
    rw [run_bind,← List.cons_append,hnat]
    have hn : Int64.ofInt m = n := ofInt_of_toInt_eq hm
    exact congrArg some (Prod.ext hn rfl)
  · rename_i m hm
    have hnat := reads_readNat (m+1) b rest hb
    rw [readInt,run_bind,List.cons_append]
    simp only [readSign,Option.bind_some]
    rw [run_bind,hnat]
    have hn : Int64.ofInt (-((m+1 : ℕ) : ℤ)) = n := ofInt_of_toInt_eq hm
    exact congrArg some (Prod.ext hn rfl)

theorem ends_quote (t : Bytes) : Ends isDigit (ascii ":\"" ++ t) :=
  Ends.append ⟨58,rfl,by decide⟩ t

theorem ends_semicolon : Ends isDigit (ascii ";") := ⟨59,rfl,by decide⟩

theorem reads_quoted (s : Bytes) : Reads readQuoted (quoted s) s := by
  have hend : Reads (do expect (ascii "\""); return s : Reader UInt8 Bytes) (ascii "\"") s :=
    (reads_expect _).last rfl
  have hcolon := (reads_expect (ascii ":\"")).bind (f:=fun _ => do
    let s ← take s.length; expect (ascii "\""); return s) ((reads_take s).bind hend)
  have h := (reads_readNat s.length).bind (f:=fun n => do
    expect (ascii ":\""); let s ← take n; expect (ascii "\""); return s) (ends_quote _) hcolon
  have he : quoted s = digits s.length ++ (ascii ":\"" ++ (s ++ ascii "\"")) := by simp [quoted]
  rw [he]
  exact h

theorem reads_closed {α β : Type} {r : Reader UInt8 α} {s : Bytes} {a : α} (f : α → β)
    (h : Reads r s a) :
    Reads (do let a ← r; expect (ascii ";"); return f a) (s ++ ascii ";") (f a) :=
  h.bind ((reads_expect _).last rfl)

theorem reads_int_closed {α : Type} (f : Int64 → α) (n : Int64) :
    Reads (do let n ← readInt; expect (ascii ";"); return f n) (longToStr n ++ ascii ";") (f n) :=
  (reads_readInt n).bind (f:=fun n => do expect (ascii ";"); return f n) ends_semicolon
    ((reads_expect _).last rfl)

theorem reads_tagged {α : Type} {f : Bytes → Reader UInt8 α} {t s : Bytes} {a : α}
    (htag : t.length = 2) (h : Reads (f t) s a) :
    Reads (do let tag ← take 2; f tag) (t ++ s) a := by
  have ht := reads_take t
  rw [htag] at ht
  exact ht.bind h

theorem reads_key (key : Key) : Reads readKey (serializeKey key) key := by
  cases key with
  | int n =>
    rw [serializeKey,List.append_assoc]
    exact reads_tagged (f:=readTaggedKey) rfl (reads_int_closed Key.int n)
  | str s =>
    rw [serializeKey,List.append_assoc]
    exact reads_tagged (f:=readTaggedKey) rfl (reads_closed Key.str (reads_quoted s))

theorem yields_tagged {α : Type} {f : Bytes → Reader UInt8 α} {t s : Bytes} {o : Option α}
    (htag : t.length = 2) (h : Yields (f t) s o) :
    Yields (do let tag ← take 2; f tag) (t ++ s) o := by
  have ht := reads_take t
  rw [htag] at ht
  exact ht.bindYields h

theorem yields_braced {α : Type} {body : ℕ → Reader UInt8 α} {n : ℕ} {entries : Bytes}
    {o : Option α} (h : Yields (body n) entries o) :
    Yields (readBraced body) (braced n entries) o := by
  have hend : ∀ a : α, Yields (do expect (ascii "\x7d"); return a : Reader UInt8 α) (ascii "\x7d")
      (some a) := fun a => by
    have h : Reads (do expect (ascii "\x7d"); return a : Reader UInt8 α) (ascii "\x7d") a :=
      (reads_expect _).last rfl
    exact h.yields
  have hbody := h.bind hend
  rw [Option.bind_fun_some] at hbody
  have hcolon := (reads_expect (ascii ":\x7b")).bindYields (f:=fun _ => do
    let a ← body n; expect (ascii "\x7d"); return a) hbody
  have hall := (reads_readNat n).bindYields (f:=fun n => do
    expect (ascii ":\x7b"); let a ← body n; expect (ascii "\x7d"); return a)
    (Ends.append ⟨58,rfl,by decide⟩ _) hcolon
  have he : braced n entries = digits n ++ (ascii ":\x7b" ++ (entries ++ ascii "\x7d")) := by
    simp [braced]
  rw [he]
  exact hall

theorem length_lt_braced (n : ℕ) (entries : Bytes) :
    entries.length < (braced n entries).length := by
  have hopen : (ascii ":\x7b").length = 2 := rfl
  simp only [braced,List.length_append,hopen]
  omega

mutual

/-- What is read where a value was written. -/
def comesBack (F : SerialFormat) : Zval → Option Zval
  | .null | .undef _ | .cursorId _ => some .null
  | .bool b => some (.bool b)
  | .long n => some (.long n)
  | .double bits => (F.readDouble (F.doubleText bits)).map .double
  | .string s => some (.string s)
  | .array _ els => (comesBackAll F els).map (.array none)
  | .object ce _ properties _ => (comesBackAll F properties).bind (F.object ce.name)
  | .bson obj => (F.readPayload obj.className (F.payload obj)).map .bson
  | .reference z => comesBack F z
  | .resource => some (.long 0)

def comesBackAll (F : SerialFormat) : List (Key × Zval) → Option (List (Key × Zval))
  | [] => some []
  | (key,z)::rest =>
    (comesBack F z).bind fun z => (comesBackAll F rest).map fun rest => (key,z)::rest

end

mutual

/-- Tables with the keys that PHP keeps in them, and floats that do not end early. -/
def Regular (F : SerialFormat) : Zval → Prop
  | .double bits => (59 : UInt8) ∉ F.doubleText bits
  | .array _ els => (keys els).Nodup ∧ (∀ key ∈ keys els, key.Normal) ∧ RegularAll F els
  | .object _ _ properties _ => (keys properties).Nodup ∧
      (∀ key ∈ keys properties, propertyKey key = key) ∧ RegularAll F properties
  | .reference z => Regular F z
  | _ => True

def RegularAll (F : SerialFormat) : List (Key × Zval) → Prop
  | [] => True
  | (_,z)::rest => Regular F z ∧ RegularAll F rest

end

theorem regularAll_iff {F : SerialFormat} {els : List (Key × Zval)} :
    RegularAll F els ↔ ∀ e ∈ els, Regular F e.2 := by
  induction els with
  | nil => simp [RegularAll]
  | cons e els ih => rw [RegularAll,ih,List.forall_mem_cons]

theorem comesBackAll_eq_none {F : SerialFormat} {els : List (Key × Zval)} :
    comesBackAll F els = none ↔ ∃ e ∈ els, comesBack F e.2 = none := by
  induction els with
  | nil => simp [comesBackAll]
  | cons e els ih =>
    rw [List.exists_mem_cons_iff,← ih,comesBackAll]
    cases comesBack F e.2 <;> simp

theorem comesBack_stdClass {F : SerialFormat} (ht : Option ℕ) (properties : List (Key × Zval))
    (returned : Zval) : comesBack F (.object .stdClass ht properties returned) =
      (comesBackAll F properties).map fun properties =>
        .object .stdClass none properties .null := by
  rw [comesBack,Option.map_eq_bind]
  rfl

/-- Every value of a table is read, and its keys are those its kind of table keeps. -/
theorem yields_entries {F : SerialFormat} {read : Reader UInt8 Zval} {toKey : Key → Key}
    {els : List (Key × Zval)} (t : List (Key × Zval))
    (hz : ∀ e ∈ els, Yields read (varSerialize F e.2) (comesBack F e.2))
    (hkey : ∀ e ∈ els, toKey e.1 = e.1) (hn : (keys t ++ keys els).Nodup) :
    Yields (readEntries read toKey els.length t) (serializeEntries F els)
      ((comesBackAll F els).map (t ++ ·)) := by
  induction els generalizing t with
  | nil => simpa [readEntries,serializeEntries,comesBackAll] using (Reads.pure t).yields
  | cons e els ih =>
    obtain ⟨key,z⟩ := e
    have hk : key ∉ keys t := by
      have hd := List.nodup_append.mp hn
      exact fun hm => hd.2.2 key hm key (by simp) rfl
    have hstep : ∀ z', update t (toKey key) z' = t ++ [(key,z')] := fun z' => by
      rw [hkey (key,z) List.mem_cons_self,update_of_notMem t key z' hk]
    have hrest : ∀ z', Yields (readEntries read toKey els.length (update t (toKey key) z'))
        (serializeEntries F els) ((comesBackAll F els).map ((t ++ [(key,z')]) ++ ·)) := fun z' => by
      rw [hstep]
      exact ih (t ++ [(key,z')]) (fun e he => hz e (List.mem_cons_of_mem _ he))
        (fun e he => hkey e (List.mem_cons_of_mem _ he)) (by simpa using hn)
    have hall := (reads_key key).bindYields (f:=fun key => do
      let z ← read; readEntries read toKey els.length (update t (toKey key) z))
      ((hz (key,z) List.mem_cons_self).bind hrest)
    rw [serializeEntries,List.append_assoc,comesBackAll,Option.map_bind]
    have hvalue : ((comesBack F z).bind fun z' => (comesBackAll F els).map ((t ++ [(key,z')]) ++ ·)) =
        (comesBack F z).bind (Option.map (t ++ ·) ∘ fun z' =>
          (comesBackAll F els).map fun rest => (key,z')::rest) := by
      simp [Function.comp_def]
    rw [← hvalue]
    exact hall

theorem length_varSerialize_le {F : SerialFormat} {els : List (Key × Zval)} :
    ∀ e ∈ els, (varSerialize F e.2).length ≤ (serializeEntries F els).length := by
  induction els with
  | nil => simp
  | cons e els ih =>
    intro e' he
    rw [serializeEntries,List.length_append,List.length_append]
    rcases List.mem_cons.mp he with rfl | he
    · omega
    · have := ih e' he
      omega

/-- A reader of the text's own length, or of a greater one, reads what comes back. -/
def ReadBack (F : SerialFormat) (z : Zval) : Prop :=
  ∀ n, (varSerialize F z).length ≤ n → Yields (varUnserialize F n) (varSerialize F z) (comesBack F z)

theorem yields_table {F : SerialFormat} {n : ℕ} {toKey : Key → Key} {els : List (Key × Zval)}
    (ih : RegularAll F els → ∀ e ∈ els, ReadBack F e.2) (hr : RegularAll F els)
    (hn : (keys els).Nodup) (hkey : ∀ key ∈ keys els, toKey key = key)
    (hlen : (serializeEntries F els).length ≤ n) :
    Yields (readBraced fun m => readEntries (varUnserialize F n) toKey m [])
      (braced els.length (serializeEntries F els)) (comesBackAll F els) := by
  have hentries : Yields (readEntries (varUnserialize F n) toKey els.length [])
      (serializeEntries F els) ((comesBackAll F els).map ([] ++ ·)) := yields_entries []
    (fun e he => ih hr e he n ((length_varSerialize_le e he).trans hlen))
    (fun e he => hkey e.1 (List.mem_map_of_mem he)) hn
  exact yields_braced (by simpa using hentries)

/-- Every text has a type tag at least, and the reader counts down once for it. -/
theorem length_varSerialize_pos {F : SerialFormat} (z : Zval) :
    0 < (varSerialize F z).length := by
  induction z using Zval.rec (motive_2:=fun _ => True) (motive_3:=fun _ => True) with
  | reference z ih => exact ih
  | nil | cons | mk => trivial
  | _ => simp [varSerialize,ascii]

theorem reads_bool (F : SerialFormat) (n : ℕ) (b : Bool) :
    Reads (varUnserialize F (n+1)) (varSerialize F (.bool b)) (.bool b) := by
  rw [varSerialize,List.append_assoc]
  have hb : longToStr (Int64.ofNat b.toNat) = digits b.toNat := by cases b <;> decide
  have h := reads_int_closed (fun n => Zval.bool (n ≠ 0)) (Int64.ofNat b.toNat)
  rw [hb] at h
  have hv : Zval.bool (Int64.ofNat b.toNat ≠ 0) = .bool b := by cases b <;> rfl
  rw [hv] at h
  exact reads_tagged (f:=readTagged F _) rfl h

theorem yields_orFail {α : Type} (o : Option α) : Yields (orFail o) [] o := by
  intro rest
  cases o <;> rfl

theorem yields_double {F : SerialFormat} (n : ℕ) {bits : UInt64}
    (hz : Regular F (.double bits)) :
    Yields (varUnserialize F (n+1)) (varSerialize F (.double bits)) (comesBack F (.double bits)) := by
  have hsemi : (59 : UInt8) ∉ F.doubleText bits := hz
  rw [varSerialize,List.append_assoc]
  refine yields_tagged (f:=readTagged F _) rfl ?_
  have ht := reads_takeWhile (p:=fun b : UInt8 => decide (b ≠ 59)) (s:=F.doubleText bits)
    fun b hb => by
      have hne : b ≠ 59 := fun h => hsemi (h ▸ hb)
      simpa using hne
  refine ht.bindYields ⟨59,rfl,by decide⟩ ?_
  have hend := (reads_expect (ascii ";")).bindYields
    (f:=fun _ => do let bits ← orFail (F.readDouble (F.doubleText bits)); return Zval.double bits)
    ((yields_orFail (F.readDouble (F.doubleText bits))).last fun _ => rfl)
  rwa [List.append_nil] at hend

theorem yields_bson (F : SerialFormat) (n : ℕ) (obj : BsonObject) :
    Yields (varUnserialize F (n+1)) (varSerialize F (.bson obj)) (comesBack F (.bson obj)) := by
  rw [varSerialize,List.append_assoc,List.append_assoc]
  refine yields_tagged (f:=readTagged F _) rfl
    ((reads_quoted _).bindYields ((reads_expect _).bindYields ?_))
  have hend := (yields_braced (reads_take (F.payload obj)).yields).bind (t:=[])
    (f:=fun payload => do
      let obj ← orFail (F.readPayload obj.className payload)
      return Zval.bson obj) fun payload =>
    (yields_orFail (F.readPayload obj.className payload)).last fun _ => rfl
  rwa [List.append_nil] at hend

theorem yields_leaf {F : SerialFormat} (n : ℕ) {z : Zval} (hl : z.IsLeaf) (hz : Regular F z) :
    Yields (varUnserialize F (n+1)) (varSerialize F z) (comesBack F z) := by
  cases z with
  | array | object | reference => exact hl.elim
  | undef | cursorId | null =>
    exact (reads_tagged (f:=readTagged F _) (t:=ascii "N;") (s:=[]) rfl (Reads.pure _)).yields
  | resource => exact (reads_tagged (f:=readTagged F _) (t:=ascii "i:") rfl
      (reads_int_closed Zval.long 0)).yields
  | bool b => exact (reads_bool F n b).yields
  | long i =>
    rw [varSerialize,List.append_assoc]
    have h : Reads (varUnserialize F (n+1)) (ascii "i:" ++ (longToStr i ++ ascii ";")) (.long i) :=
      reads_tagged (f:=readTagged F _) rfl (reads_int_closed Zval.long i)
    exact h.yields
  | double bits => exact yields_double n hz
  | string s =>
    rw [varSerialize,List.append_assoc]
    have h : Reads (varUnserialize F (n+1)) (ascii "s:" ++ (quoted s ++ ascii ";")) (.string s) :=
      reads_tagged (f:=readTagged F _) rfl (reads_closed Zval.string (reads_quoted s))
    exact h.yields
  | bson obj => exact yields_bson F n obj

theorem ReadBack.of_succ {F : SerialFormat} {z : Zval}
    (h : ∀ n, (varSerialize F z).length ≤ n+1 →
      Yields (varUnserialize F (n+1)) (varSerialize F z) (comesBack F z)) : ReadBack F z := by
  intro n hn
  cases n with
  | zero => exact absurd (hn.trans_lt (length_varSerialize_pos z)) (lt_irrefl _)
  | succ n => exact h n hn

theorem readBack_array {F : SerialFormat} {ht : Option ℕ} {els : List (Key × Zval)}
    (ih : RegularAll F els → ∀ e ∈ els, ReadBack F e.2) (hz : Regular F (.array ht els)) :
    ReadBack F (.array ht els) := by
  refine ReadBack.of_succ fun n hn => ?_
  obtain ⟨hnodup,hnormal,hall⟩ := hz
  rw [varSerialize] at hn ⊢
  refine yields_tagged (f:=readTagged F _) rfl ((yields_table ih hall hnodup ?_ ?_).last fun _ => rfl)
  · intro key hkey
    cases key with
    | int i => rfl
    | str s => exact hnormal _ hkey
  · have hlt := length_lt_braced els.length (serializeEntries F els)
    rw [List.length_append] at hn
    omega

theorem readBack_object {F : SerialFormat} {ce : ClassEntry} {ht : Option ℕ}
    {properties : List (Key × Zval)} {returned : Zval}
    (ih : RegularAll F properties → ∀ e ∈ properties, ReadBack F e.2)
    (hz : Regular F (.object ce ht properties returned)) :
    ReadBack F (.object ce ht properties returned) := by
  refine ReadBack.of_succ fun n hn => ?_
  obtain ⟨hnodup,hkey,hall⟩ := hz
  rw [varSerialize] at hn ⊢
  rw [List.append_assoc,List.append_assoc]
  have htable : Yields (readBraced fun m => readEntries (varUnserialize F n) propertyKey m [])
      (braced properties.length (serializeEntries F properties)) (comesBackAll F properties) := by
    refine yields_table ih hall hnodup hkey ?_
    have hlt := length_lt_braced properties.length (serializeEntries F properties)
    simp only [List.length_append] at hn
    omega
  refine yields_tagged (f:=readTagged F _) rfl
    ((reads_quoted _).bindYields ((reads_expect _).bindYields ?_))
  have hend := htable.bind (t:=[]) (f:=fun properties => orFail (F.object ce.name properties))
    fun properties => yields_orFail (F.object ce.name properties)
  rwa [List.append_nil] at hend

/-- Reading what was written. -/
theorem yields_varSerialize (F : SerialFormat) :
    (∀ z, Regular F z → ReadBack F z) ∧
    (∀ els, RegularAll F els → ∀ e ∈ els, ReadBack F e.2) := by
  refine Zval.induction ?leaf ?array ?object ?reference ?nil ?cons
  case leaf => exact fun z hl hz => ReadBack.of_succ fun n _ => yields_leaf n hl hz
  case array => exact fun ht els ih hz => readBack_array ih hz
  case object => exact fun ce ht properties returned ih _ hz => readBack_object ih hz
  case reference => exact fun z ih hz => ih hz
  case nil => exact fun _ e he => absurd he List.not_mem_nil
  case cons =>
    intro key z rest ihz ihr hall e he
    rcases List.mem_cons.mp he with rfl | he
    · exact ihz hall.1
    · exact ihr hall.2 e he

mutual

/-- Values that come back from their serialization as they were. -/
def Restores (F : SerialFormat) : Zval → Prop
  | .null | .bool _ | .long _ | .string _ => True
  | .double bits =>
    (59 : UInt8) ∉ F.doubleText bits ∧ F.readDouble (F.doubleText bits) = some bits
  | .array ht els =>
    ht = none ∧ (keys els).Nodup ∧ (∀ key ∈ keys els, key.Normal) ∧ RestoreAll F els
  | .object ce ht properties returned =>
    ce = ClassEntry.stdClass ∧ ht = none ∧ returned = .null ∧ (keys properties).Nodup ∧
      (∀ key ∈ keys properties, propertyKey key = key) ∧ RestoreAll F properties
  | .bson obj => F.readPayload obj.className (F.payload obj) = some obj
  | .undef _ | .cursorId _ | .reference _ | .resource => False

def RestoreAll (F : SerialFormat) : List (Key × Zval) → Prop
  | [] => True
  | (_,z)::rest => Restores F z ∧ RestoreAll F rest

end

theorem restoreAll_iff {F : SerialFormat} {els : List (Key × Zval)} :
    RestoreAll F els ↔ ∀ e ∈ els, Restores F e.2 := by
  induction els with
  | nil => simp [RestoreAll]
  | cons e els ih => rw [RestoreAll,ih,List.forall_mem_cons]

theorem restores_comesBack (F : SerialFormat) :
    (∀ z, Restores F z → Regular F z ∧ comesBack F z = some z) ∧
    (∀ els, RestoreAll F els → RegularAll F els ∧ comesBackAll F els = some els) := by
  refine Zval.induction ?leaf ?array ?object ?reference ?nil ?cons
  case leaf =>
    intro z hl hz
    cases z with
    | array | object | reference => exact hl.elim
    | undef | cursorId | resource => exact hz.elim
    | double bits => exact ⟨hz.1,congrArg (Option.map Zval.double) hz.2⟩
    | bson obj => exact ⟨trivial,congrArg (Option.map Zval.bson) hz⟩
    | _ => exact ⟨trivial,rfl⟩
  case array =>
    rintro ht els ih ⟨rfl,hnodup,hnormal,hall⟩
    obtain ⟨hregular,hback⟩ := ih hall
    exact ⟨⟨hnodup,hnormal,hregular⟩,by rw [comesBack,hback]; rfl⟩
  case object =>
    rintro ce ht properties returned ih - ⟨rfl,rfl,rfl,hnodup,hkey,hall⟩
    obtain ⟨hregular,hback⟩ := ih hall
    exact ⟨⟨hnodup,hkey,hregular⟩,by rw [comesBack_stdClass,hback]; rfl⟩
  case reference => exact fun z _ hz => hz.elim
  case nil => exact fun _ => ⟨trivial,rfl⟩
  case cons =>
    rintro key z rest ihz ihr ⟨hz,hrest⟩
    obtain ⟨hregular,hback⟩ := ihz hz
    obtain ⟨hregulars,hbacks⟩ := ihr hrest
    exact ⟨⟨hregular,hregulars⟩,by rw [comesBackAll,hback,hbacks]; rfl⟩

/-- `unserialize(serialize(z))` -/
def unserialize (F : SerialFormat) (s : Bytes) : Option Zval :=
  (varUnserialize F s.length s).map Prod.fst

theorem unserialize_eq {F : SerialFormat} {z : Zval} (h : Regular F z) :
    unserialize F (varSerialize F z) = comesBack F z := by
  have hr := (yields_varSerialize F).1 z h _ le_rfl []
  rw [List.append_nil] at hr
  rw [unserialize,hr,Option.map_map]
  exact Option.map_id' (x:=comesBack F z)

theorem unserialize_varSerialize {F : SerialFormat} {z : Zval} (h : Restores F z) :
    unserialize F (varSerialize F z) = some z := by
  obtain ⟨hregular,hback⟩ := (restores_comesBack F).1 z h
  rw [unserialize_eq hregular,hback]

end RoundTrip
end Phongo
