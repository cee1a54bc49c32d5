import Mathlib.Logic.Function.Basic
import Mathlib.Tactic.Common

/-! Base64: three bytes at a time become four characters of an alphabet of 64, and the last ones
are padded. -/
namespace Base64

def alphabet : List UInt8 :=
  "ABCDEFGHIJKLMNOPQRSTUVWXYZabcdefghijklmnopqrstuvwxyz0123456789+/".toList.map
    fun c => UInt8.ofNat c.toNat

def pad : UInt8 := 61

def character (n : UInt8) : UInt8 := alphabet.getD n.toNat pad

def index (c : UInt8) : UInt8 := UInt8.ofNat (alphabet.idxOf c)

def encode : List UInt8 → List UInt8
  | [] => []
  | [a] => [character (a / 4),character (a % 4 * 16),pad,pad]
  | [a,b] => [character (a / 4),character (a % 4 * 16 + b / 16),character (b % 16 * 4),pad]
  | a::b::c::rest =>
    character (a / 4)::character (a % 4 * 16 + b / 16)::character (b % 16 * 4 + c / 64)::
      character (c % 64)::encode rest

def decode : List UInt8 → List UInt8
  | p::q::r::s::rest =>
    if r = pad then [index p * 4 + index q / 16]
    else if s = pad then [index p * 4 + index q / 16,index q % 16 * 16 + index r / 4]
    else
      (index p * 4 + index q / 16)::(index q % 16 * 16 + index r / 4)::
        (index r % 4 * 64 + index s)::decode rest
  | _ => []

theorem index_character {n : UInt8} (h : n < 64) :
    index (character n) = n ∧ character n ≠ pad := by
  have hall : ∀ m : Fin 64, index (character (UInt8.ofNat m)) = UInt8.ofNat m ∧
      character (UInt8.ofNat m) ≠ pad := by decide +kernel
  have hn : n.toNat < 64 := UInt8.lt_iff_toNat_lt.mp h
  simpa using hall ⟨n.toNat,hn⟩

theorem sextets (a b c : UInt8) :
    a / 4 < 64 ∧ a % 4 * 16 < 64 ∧ a % 4 * 16 + b / 16 < 64 ∧ b % 16 * 4 < 64 ∧
      b % 16 * 4 + c / 64 < 64 ∧ c % 64 < 64 := by
  have ha := a.toNat_lt
  have hb := b.toNat_lt
  have hc := c.toNat_lt
  simp only [UInt8.lt_iff_toNat_lt,UInt8.toNat_add,UInt8.toNat_mul,UInt8.toNat_div,
    UInt8.toNat_mod,UInt8.reduceToNat]
  omega

theorem octets (a b c : UInt8) :
    a / 4 * 4 + a % 4 * 16 / 16 = a ∧ a / 4 * 4 + (a % 4 * 16 + b / 16) / 16 = a ∧
      (a % 4 * 16 + b / 16) % 16 * 16 + b % 16 * 4 / 4 = b ∧
      (a % 4 * 16 + b / 16) % 16 * 16 + (b % 16 * 4 + c / 64) / 4 = b ∧
      (b % 16 * 4 + c / 64) % 4 * 64 + c % 64 = c := by
  have ha := a.toNat_lt
  have hb := b.toNat_lt
  have hc := c.toNat_lt
  simp only [← UInt8.toNat_inj,UInt8.toNat_add,UInt8.toNat_mul,UInt8.toNat_div,
    UInt8.toNat_mod,UInt8.reduceToNat]
  omega

theorem decode_encode (s : List UInt8) : decode (encode s) = s := by
  induction s using encode.induct with
  | case1 => rfl
  | case2 a =>
    obtain ⟨hp,hq,-⟩ := sextets a 0 0
    obtain ⟨hoctet,-⟩ := octets a 0 0
    simp [encode,decode,index_character hp,index_character hq,hoctet]
  | case3 a b =>
    obtain ⟨hp,-,hq,hr,-⟩ := sextets a b 0
    obtain ⟨-,hfirst,hsecond,-⟩ := octets a b 0
    simp [encode,decode,index_character hp,index_character hq,index_character hr,hfirst,hsecond]
  | case4 a b c rest ih =>
    obtain ⟨hp,-,hq,-,hr,hs⟩ := sextets a b c
    obtain ⟨-,hfirst,-,hsecond,hthird⟩ := octets a b c
    simp [encode,decode,index_character hp,index_character hq,index_character hr,
      index_character hs,hfirst,hsecond,hthird,ih]

theorem encode_injective : Function.Injective encode :=
  Function.LeftInverse.injective decode_encode

end Base64
