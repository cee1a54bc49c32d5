import Mathlib.Tactic.Common
import Phongo.Concern.WriteConcern

/-! `UTCDateTime.c`: the conversions from and to a `DateTime`, as of PHP 7.2. -/
namespace Phongo

/-- What the driver reads and writes of a `timelib_time`. -/
structure TimelibTime where
  sse : Int64
  us : Int64
  deriving DecidableEq

/-- `php_phongo_utcdatetime_t` -/
structure UtcDateTime where
  initialized : Bool
  milliseconds : Int64
  deriving DecidableEq

namespace UtcDateTime

/-- `php_date_initialize` on a new `DateTime`. -/
abbrev DateInitialize := Bytes → TimelibTime

/-- `php_phongo_utcdatetime_init_from_date` -/
def initFromDate (time : TimelibTime) : UtcDateTime :=
  let sec := time.sse
  let usec := time.us
  ⟨true,sec*1000+usec/1000⟩

/-- `UTCDateTime::toDateTime` -/
def toDateTime (dateInitialize : DateInitialize) (intern : UtcDateTime) : TimelibTime :=
  let time := dateInitialize (ascii "@" ++ longToStr (intern.milliseconds/1000))
  { time with us := intern.milliseconds%1000*1000 }

/-- The initialisation from `@N` sets the seconds to `N`. -/
def SetsSeconds (dateInitialize : DateInitialize) : Prop :=
  ∀ n : Int64, (dateInitialize (ascii "@" ++ longToStr n)).sse = n

/-- The microseconds count up from the seconds. -/
def Normal (time : TimelibTime) : Prop := 0 ≤ time.us.toInt ∧ time.us.toInt < 1000000
deriving Decidable

/-- The time is `milliseconds` after the epoch. -/
def Represents (time : TimelibTime) (milliseconds : Int64) : Prop :=
  time.sse.toInt*1000000+time.us.toInt = milliseconds.toInt*1000

/-- The microseconds are rounded down to a whole millisecond. -/
def RoundedDown (time rounded : TimelibTime) : Prop :=
  rounded.sse = time.sse ∧ rounded.us.toInt = time.us.toInt/1000*1000
deriving Decidable

def Fits (n : ℤ) : Prop := -2^63 ≤ n ∧ n < 2^63

theorem bmod_eq_of_fits {n : ℤ} (h : Fits n) : n.bmod (2^64) = n := by
  have hlo := h.1
  have hhi := h.2
  exact Int.bmod_eq_of_le (by omega) (by omega)

variable {dateInitialize : DateInitialize}

theorem toDateTime_sse (h : SetsSeconds dateInitialize) (intern : UtcDateTime) :
    (toDateTime dateInitialize intern).sse.toInt = intern.milliseconds.toInt.tdiv 1000 := by
  show (dateInitialize _).sse.toInt = _
  rw [h]
  exact Int64.toInt_div_of_ne_right _ _ (by decide)

theorem toDateTime_us (intern : UtcDateTime) :
    (toDateTime dateInitialize intern).us.toInt = intern.milliseconds.toInt.tmod 1000*1000 := by
  show (intern.milliseconds%1000*1000).toInt = _
  have h1000 : (1000 : Int64).toInt = 1000 := rfl
  rw [Int64.toInt_mul,Int64.toInt_mod,h1000]
  have hlo := Int.lt_tmod_of_pos intern.milliseconds.toInt (show (0 : ℤ) < 1000 by decide)
  have hhi := Int.tmod_lt_of_pos intern.milliseconds.toInt (show (0 : ℤ) < 1000 by decide)
  exact bmod_eq_of_fits ⟨by omega,by omega⟩

theorem represents_toDateTime (h : SetsSeconds dateInitialize) (intern : UtcDateTime) :
    Represents (toDateTime dateInitialize intern) intern.milliseconds := by
  have hsplit := Int.mul_tdiv_add_tmod intern.milliseconds.toInt 1000
  rw [Represents,toDateTime_sse h,toDateTime_us]
  omega

/-- What `/` and `%` by 1000 give in C: the remainder takes the sign of the dividend. -/
theorem truncation (m : ℤ) :
    1000*m.tdiv 1000+m.tmod 1000 = m ∧ -1000 < m.tmod 1000 ∧ m.tmod 1000 < 1000 ∧
      (0 ≤ m → 0 ≤ m.tmod 1000) ∧ (m ≤ 0 → m.tmod 1000 ≤ 0) := by
  have hlo := Int.lt_tmod_of_pos m (show (0 : ℤ) < 1000 by decide)
  have hhi := Int.tmod_lt_of_pos m (show (0 : ℤ) < 1000 by decide)
  refine ⟨Int.mul_tdiv_add_tmod m 1000,hlo,hhi,Int.tmod_nonneg 1000,fun hm => ?_⟩
  have hneg := Int.tmod_nonneg 1000 (show 0 ≤ -m by omega)
  rw [Int.neg_tmod] at hneg
  omega

theorem normal_toDateTime_iff (intern : UtcDateTime) :
    Normal (toDateTime dateInitialize intern) ↔
      0 ≤ intern.milliseconds.toInt ∨ 1000 ∣ intern.milliseconds.toInt := by
  obtain ⟨hsplit,hlo,hhi,hpos,hneg⟩ := truncation intern.milliseconds.toInt
  rw [Normal,toDateTime_us]
  omega

theorem initFromDate_milliseconds {time : TimelibTime} (hn : Normal time) :
    (initFromDate time).milliseconds.toInt =
      (time.sse.toInt*1000+time.us.toInt/1000).bmod (2^64) := by
  show (time.sse*1000+time.us/1000).toInt = _
  have h1000 : (1000 : Int64).toInt = 1000 := rfl
  have hdiv : (time.us/1000).toInt = time.us.toInt/1000 := by
    rw [Int64.toInt_div_of_ne_right _ _ (by decide),h1000,Int.tdiv_eq_ediv_of_nonneg hn.1]
  rw [Int64.toInt_add,Int64.toInt_mul,h1000,hdiv,Int.bmod_add_bmod]

theorem roundedDown_iff (h : SetsSeconds dateInitialize) {time : TimelibTime} (hn : Normal time)
    (hf : Fits (time.sse.toInt*1000+999)) :
    RoundedDown time (toDateTime dateInitialize (initFromDate time)) ↔
      0 ≤ time.sse.toInt ∨ time.us.toInt < 1000 ∧ -2^63 ≤ time.sse.toInt*1000 := by
  have hms := initFromDate_milliseconds hn
  obtain ⟨hsplit,hlo,hhi,hpos,hneg⟩ := truncation (initFromDate time).milliseconds.toInt
  rw [RoundedDown,← Int64.toInt_inj,toDateTime_sse h,toDateTime_us]
  obtain ⟨hn0,hn1⟩ := hn
  obtain ⟨hf0,hf1⟩ := hf
  by_cases hfits : Fits (time.sse.toInt*1000+time.us.toInt/1000)
  · rw [bmod_eq_of_fits hfits] at hms
    have hfits0 := hfits.1
    omega
  · -- only one number of seconds is left, and the sum wraps to a positive one
    have hsse : time.sse.toInt = -9223372036854776 := by
      unfold Fits at hfits
      omega
    rw [hsse] at hms ⊢
    have hsmall : time.us.toInt/1000 < 192 := by
      unfold Fits at hfits
      omega
    have hwrap : (-9223372036854776*1000+time.us.toInt/1000 : ℤ).bmod (2^64) =
        9223372036854775616+time.us.toInt/1000 := by
      have hback : Fits (9223372036854775616+time.us.toInt/1000) := ⟨by omega,by omega⟩
      rw [← Int.add_bmod_right,← bmod_eq_of_fits hback]
      congr 1
      omega
    rw [hwrap] at hms
    omega

/-- Both conversions are right exactly where C's division rounds down and nothing wraps. -/
theorem utcDateTime_conversions_iff (h : SetsSeconds dateInitialize) :
    (∀ intern : UtcDateTime,
      (Normal (toDateTime dateInitialize intern) ∧
        Represents (toDateTime dateInitialize intern) intern.milliseconds) ↔
      0 ≤ intern.milliseconds.toInt ∨ 1000 ∣ intern.milliseconds.toInt) ∧
    (∀ time : TimelibTime, Normal time → Fits (time.sse.toInt*1000+999) →
      (RoundedDown time (toDateTime dateInitialize (initFromDate time)) ↔
        0 ≤ time.sse.toInt ∨ time.us.toInt < 1000 ∧ -2^63 ≤ time.sse.toInt*1000)) := by
  refine ⟨fun intern => ?_,fun time hn hf => roundedDown_iff h hn hf⟩
  rw [normal_toDateTime_iff]
  exact and_iff_left_of_imp fun _ => represents_toDateTime h intern

/-- Reads the seconds from `@N`. -/
def readSeconds : DateInitialize := fun s => ⟨Int64.ofInt (decimal (s.drop 1)),0⟩

theorem setsSeconds_readSeconds : SetsSeconds readSeconds := by
  intro n
  show Int64.ofInt (decimal (longToStr n)) = n
  rw [decimal_longToStr,Int64.ofInt_toInt]

theorem represents_hundred : Normal (toDateTime readSeconds ⟨true,100⟩) :=
  (((utcDateTime_conversions_iff setsSeconds_readSeconds).1 ⟨true,100⟩).mpr
    (Or.inl (by decide))).1

/-- One millisecond before the epoch gives negative microseconds. -/
theorem not_normal_minus_one :
    ¬ Normal (toDateTime readSeconds ⟨true,-1⟩) ∧
      ¬ RoundedDown ⟨-1,999000⟩ (toDateTime readSeconds (initFromDate ⟨-1,999000⟩)) := by
  decide

end UtcDateTime
end Phongo
