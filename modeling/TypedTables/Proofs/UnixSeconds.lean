import TypedTables.Calendar.UnixReal
import TypedTables.Proofs.CalendarDays
import TypedTables.Proofs.RoundedValues

/-!
# Seconds since 1970 read back

A number of whole seconds is a timestamp exactly if it lies within the days of the calendar, so the
whole seconds of a timestamp are always one. As a floating point number they may be rounded up: the
last half millisecond of the calendar is rounded to a second that no longer lies in it.
-/
namespace TypedTables.DateTime

open Binary64

def firstSecond : Int := Date.first.dayNumber * 86400

/-- The second after the last one of the calendar. -/
def endSecond : Int := (Date.last.dayNumber + 1) * 86400

theorem firstSecond_eq : firstSecond = -8334601228800 := by
  rw [firstSecond, Date.dayNumber_first]; rfl

theorem endSecond_eq : endSecond = 8210266876800 := by rw [endSecond, Date.dayNumber_last]; rfl

theorem seconds_lt (t : TimeOfDay) : t.seconds < 86400 := by
  have hhour := t.hour_lt
  have hminute := t.minute_lt
  have hsecond := t.second_lt
  rw [TimeOfDay.seconds]
  omega

/-- The second of a timestamp lies in the calendar. -/
theorem unixSeconds_mem (t : DateTime) :
    firstSecond ≤ t.unixSeconds ∧ t.unixSeconds < endSecond := by
  obtain ⟨hfirst, hlast⟩ := Date.exists_dayNumber_iff.mp ⟨t.date, rfl⟩
  have hseconds := seconds_lt t.time
  rw [firstSecond, endSecond, unixSeconds]
  omega

/-- The time at a second of the day. -/
theorem ofSeconds?_eq {n nano : Nat} (hn : n < 86400) (hnano : nano < 2000000000) :
    ∃ time, TimeOfDay.ofSeconds? n nano = some time ∧ time.seconds = n ∧ time.nano = nano := by
  have hhour : n / 3600 < 24 := by omega
  have hminute : n / 60 % 60 < 60 := Nat.mod_lt _ (by decide)
  have hsecond : n % 60 < 60 := Nat.mod_lt _ (by decide)
  refine ⟨⟨n / 3600, n / 60 % 60, n % 60, nano, hhour, hminute, hsecond, hnano⟩,
    dif_pos ⟨hhour, hminute, hsecond, hnano⟩, ?_, rfl⟩
  rw [TimeOfDay.seconds]
  dsimp only
  omega

/-- A second is one of a timestamp exactly if it lies in the calendar. -/
theorem exists_ofUnix?_iff {n : Int} {nano : Nat} (hnano : nano < 2000000000) :
    (∃ t, ofUnix? n nano = some t) ↔ firstSecond ≤ n ∧ n < endSecond := by
  obtain ⟨time, htime, -, -⟩ := ofSeconds?_eq (n := (n % 86400).toNat) (by omega) hnano
  have hdate : (∃ t, ofUnix? n nano = some t) ↔ ∃ d, Date.ofDayNumber? (n / 86400) = some d := by
    rw [ofUnix?, htime]
    cases Date.ofDayNumber? (n / 86400) <;> simp
  rw [hdate]
  simp only [Date.ofDayNumber?_eq_some]
  rw [Date.exists_dayNumber_iff, firstSecond, endSecond]
  omega

/-- The whole seconds of a timestamp are read as the timestamp without its fraction. -/
theorem ofUnix?_unixSeconds (t : DateTime) {nano : Nat} (hnano : nano < 2000000000) :
    ofUnix? t.unixSeconds nano =
      some ⟨t.date, { t.time with nano := nano, nano_lt := hnano }⟩ := by
  have hseconds := seconds_lt t.time
  have hday : t.unixSeconds / 86400 = t.date.dayNumber := by
    rw [unixSeconds]
    omega
  have hrest : (t.unixSeconds % 86400).toNat = t.time.seconds := by
    rw [unixSeconds]
    omega
  have htime : TimeOfDay.ofSeconds? t.time.seconds nano =
      some { t.time with nano := nano, nano_lt := hnano } := by
    have hhour := t.time.hour_lt
    have hminute := t.time.minute_lt
    have hsecond := t.time.second_lt
    have h₁ : t.time.seconds / 3600 = t.time.hour := by rw [TimeOfDay.seconds]; omega
    have h₂ : t.time.seconds / 60 % 60 = t.time.minute := by rw [TimeOfDay.seconds]; omega
    have h₃ : t.time.seconds % 60 = t.time.second := by rw [TimeOfDay.seconds]; omega
    rw [TimeOfDay.ofSeconds?, h₁, h₂, h₃]
    exact dif_pos ⟨hhour, hminute, hsecond, hnano⟩
  rw [ofUnix?, hday, Date.ofDayNumber?_dayNumber, hrest, htime]
  rfl

/-! ### As a floating point number -/

theorem natAbs_unixSeconds_le (t : DateTime) : t.unixSeconds.natAbs ≤ 2 ^ 43 := by
  have h := t.unixSeconds_mem
  rw [firstSecond_eq, endSecond_eq] at h
  omega

def fractionReal (t : DateTime) : Binary64 := (Binary64.ofInt t.time.nano).div nanosPerSecond

theorem rounds_fractionReal (t : DateTime) :
    Rounds ((t.time.nano : ℚ) / 1000000000) t.fractionReal := by
  have hnano := t.time.nano_lt
  have hnano' : (t.time.nano : ℚ) < 2000000000 := by exact_mod_cast hnano
  obtain ⟨hfinite, hvalue⟩ := ofInt_value (i := t.time.nano) (by omega)
  obtain ⟨hfinite', hvalue'⟩ := ofInt_value (i := 1000000000) (by decide)
  have hquotient :
      (t.time.nano : ℚ) / 1000000000 = (ofInt t.time.nano).value / nanosPerSecond.value := by
    rw [hvalue, nanosPerSecond, hvalue']
    push_cast
    rfl
  rw [hquotient]
  refine rounds_div hfinite hfinite' ?_ ?_
  · rw [nanosPerSecond, hvalue']
    norm_num
  · rw [← hquotient]
    refine lt_overflow_of_le (n := 1) (by decide) ?_
    rw [abs_of_nonneg (by positivity), div_le_iff₀ (by norm_num)]
    linarith

/-- The fraction of a timestamp lies between the representable rationals that its nanoseconds lie
between. -/
theorem fractionReal_mem (t : DateTime) : 0 ≤ t.fractionReal.value ∧ t.fractionReal.value ≤ 2 := by
  have h := t.rounds_fractionReal
  have hnano : (t.time.nano : ℚ) < 2000000000 := by exact_mod_cast t.time.nano_lt
  constructor
  · exact h.ge 0 ⟨0, 0, by decide, by decide, by simp⟩ (by positivity)
  · refine h.le 2 ⟨2, 0, by decide, by decide, by simp⟩ ?_
    rw [div_le_iff₀ (by norm_num)]
    linarith

/-- The seconds of a timestamp with their fraction, rounded. -/
theorem rounds_toUnixReal (t : DateTime) :
    Rounds (t.unixSeconds + t.fractionReal.value) t.toUnixReal := by
  have hle := t.natAbs_unixSeconds_le
  obtain ⟨hfinite, hvalue⟩ := ofInt_value (i := t.unixSeconds) (by omega)
  obtain ⟨hlow, hhigh⟩ := t.fractionReal_mem
  have hsum : (t.unixSeconds : ℚ) + t.fractionReal.value = (ofInt t.unixSeconds).value +
      t.fractionReal.value := by
    rw [hvalue]
  rw [hsum]
  refine rounds_add hfinite t.rounds_fractionReal.finite
    (lt_overflow_of_le (n := 44) (by decide) ?_)
  have hmagnitude : |(t.unixSeconds : ℚ)| ≤ 2 ^ 43 := by
    rw [← Int.cast_abs, Int.abs_eq_natAbs, Int.cast_natCast]
    exact_mod_cast hle
  rw [abs_le] at hmagnitude
  rw [← hsum, abs_le]
  exact ⟨by linarith, by linarith⟩

/-- The number of a timestamp lies within two seconds after its whole seconds. -/
theorem toUnixReal_mem (t : DateTime) :
    (t.unixSeconds : ℚ) ≤ t.toUnixReal.value ∧ t.toUnixReal.value ≤ t.unixSeconds + 2 := by
  have h := t.rounds_toUnixReal
  have hle := t.natAbs_unixSeconds_le
  obtain ⟨hlow, hhigh⟩ := t.fractionReal_mem
  constructor
  · exact h.ge _ (.of_int (by omega)) (by linarith)
  · have hrep : Representable ((t.unixSeconds + 2 : Int) : ℚ) := .of_int (by omega)
    push_cast at hrep
    exact h.le _ hrep (by linarith)

/-- A timestamp is read back from its number if this is less than the end of the calendar. -/
theorem exists_ofUnixReal?_iff (t : DateTime) :
    (∃ u, ofUnixReal? t.toUnixReal = some u) ↔ t.toUnixReal.value < endSecond := by
  obtain ⟨hlow, hhigh⟩ := t.toUnixReal_mem
  have hmem := t.unixSeconds_mem
  have hfinite := t.rounds_toUnixReal.finite
  have hfloor : t.unixSeconds ≤ ⌊t.toUnixReal.value⌋ ∧
      ⌊t.toUnixReal.value⌋ ≤ t.unixSeconds + 2 := by
    constructor
    · exact Int.le_floor.mpr hlow
    · exact Int.floor_le_iff.mpr (by push_cast; linarith)
  rw [firstSecond_eq, endSecond_eq] at hmem
  obtain ⟨hfinite', hvalue⟩ := floor_value hfinite (by omega)
  rw [ofUnixReal?, toIntWithin_eq hfinite' hvalue (by omega) (by omega),
    exists_ofUnix?_iff (by omega),
    firstSecond_eq, endSecond_eq, ← Int.floor_lt]
  exact and_iff_right (by omega)

/-- The number of a timestamp is rounded up to the end of the calendar from half a place below it
on: half way counts, since the end is an even number of places. -/
theorem endSecond_le_iff (t : DateTime) :
    (endSecond : ℚ) ≤ t.toUnixReal.value ↔
      (endSecond : ℚ) - 1 / 2 ^ 11 ≤ t.unixSeconds + t.fractionReal.value := by
  obtain ⟨hlow, hhigh⟩ := t.fractionReal_mem
  obtain ⟨-, hmem⟩ := t.unixSeconds_mem
  rw [endSecond_eq] at hmem ⊢
  -- only above the last whole second can the sum be rounded to the end, and there the last place is
  -- `2 ^ -10`
  rcases le_or_gt ((t.unixSeconds : ℚ) + t.fractionReal.value) (8210266876799 : Int) with hle | hgt
  · have hvalue := t.rounds_toUnixReal.le _ (.of_int (by decide)) hle
    push_cast at hvalue hle ⊢
    constructor <;> intro h <;> linarith
  · have hsecond : (t.unixSeconds : ℚ) ≤ 8210266876799 := by
      exact_mod_cast Int.le_of_lt_add_one hmem
    obtain ⟨hfinite, hvalue⟩ :=
      ofInt_value (i := t.unixSeconds) (by have := t.natAbs_unixSeconds_le; omega)
    push_cast at hgt
    have hsum : (ofInt t.unixSeconds).value + t.fractionReal.value =
        t.unixSeconds + t.fractionReal.value := by
      rw [hvalue]
    obtain ⟨num, den, hden, hquotient, hadd⟩ :=
      add_value_of_pos hfinite t.rounds_fractionReal.finite
      (by rw [hsum]; linarith)
        (by rw [hsum]; exact lt_overflow_of_le (n := 44) (by decide) (by linarith))
    rw [hsum] at hquotient
    have hplace : lastPlace num den = -10 := by
      refine lastPlace_eq hden (by decide) ?_ ?_
      · rw [hquotient]
        norm_num
        linarith
      · rw [hquotient]
        norm_num
        linarith
    have hiff : ((8407313281843200 : Nat) : ℚ) * 2 ^ lastPlace num den ≤ nearest num den ↔ _ :=
      place_le_nearest_iff hden
    rw [hplace, ← hadd, hquotient] at hiff
    have hend : ((8407313281843200 : Nat) : ℚ) * 2 ^ (-10 : Int) = 8210266876800 := by norm_num
    have hmiddle :
        (((8407313281843200 : Nat) : ℚ) - 1 / 2) * 2 ^ (-10 : Int) =
          8210266876800 - 1 / 2 ^ 11 := by
      norm_num
    rw [hend, hmiddle] at hiff
    have hreal : t.toUnixReal = (ofInt t.unixSeconds).add t.fractionReal := rfl
    rw [hreal]
    push_cast
    rw [hiff, le_iff_lt_or_eq]
    exact or_congr_right (and_iff_left (by decide))

/-- The last nanosecond since 1970 whose timestamp is read back from its number. -/
def lastRealNano : Int := 8210266876799999511718

/-- The fraction is rounded to half a place of the end below a whole number exactly from the first
nanosecond on that lies above it. -/
theorem le_fractionReal_iff (t : DateTime) {c : Nat} (hc : c = 1 ∨ c = 2) :
    (c : ℚ) - 1 / 2 ^ 11 ≤ t.fractionReal.value ↔ c * 1000000000 - 488281 ≤ t.time.nano := by
  have h := t.rounds_fractionReal
  have hrep : Representable ((c : ℚ) - 1 / 2 ^ 11) ∧
      Representable ((c : ℚ) - 1 / 2 ^ 11 - 1 / 2 ^ 31) := by
    rcases hc with rfl | rfl
    · exact ⟨⟨2 ^ 11 - 1, -11, by decide, by decide, by norm_num⟩,
        ⟨2 ^ 31 - 2 ^ 20 - 1, -31, by decide, by decide, by norm_num⟩⟩
    · exact ⟨⟨2 ^ 12 - 1, -11, by decide, by decide, by norm_num⟩,
        ⟨2 ^ 32 - 2 ^ 20 - 1, -31, by decide, by decide, by norm_num⟩⟩
  have hc' : (c : ℚ) = 1 ∨ (c : ℚ) = 2 := by exact_mod_cast hc
  -- both bounds are representable, so that rounding leaves the fraction on its side of them
  constructor
  · intro hle
    by_contra hlt
    have hnano : t.time.nano + 488282 ≤ c * 1000000000 := by omega
    have hnano' : (t.time.nano : ℚ) + 488282 ≤ c * 1000000000 := by exact_mod_cast hnano
    have hbelow := h.le _ hrep.2 (by
      rw [div_le_iff₀ (by norm_num)]
      norm_num
      linarith)
    have : (0 : ℚ) < 1 / 2 ^ 31 := by norm_num
    linarith
  · intro hle
    have hnano : c * 1000000000 ≤ t.time.nano + 488281 := by omega
    have hnano' : (c : ℚ) * 1000000000 ≤ t.time.nano + 488281 := by exact_mod_cast hnano
    refine h.ge _ hrep.1 ?_
    rw [le_div_iff₀ (by norm_num)]
    norm_num
    linarith

/-- A timestamp is read back from its number exactly if it is not in the last half millisecond of
the calendar, seconds beyond the minute included. -/
theorem exists_ofUnixReal?_iff_nano (t : DateTime) :
    (∃ u, ofUnixReal? t.toUnixReal = some u) ↔
    t.unixSeconds * 1000000000 + t.time.nano ≤ lastRealNano := by
  obtain ⟨-, hmem⟩ := t.unixSeconds_mem
  have hnano := t.time.nano_lt
  rw [exists_ofUnixReal?_iff, ← not_le, endSecond_le_iff]
  rw [endSecond_eq] at hmem ⊢
  rw [lastRealNano]
  -- a fraction, with that of a leap second, adds less than two seconds
  obtain hearly | hsecond | hlast : t.unixSeconds ≤ 8210266876797 ∨ t.unixSeconds = 8210266876798 ∨
      t.unixSeconds = 8210266876799 := by omega
  · have hearly' : (t.unixSeconds : ℚ) ≤ 8210266876797 := by exact_mod_cast hearly
    have hfraction := t.fractionReal_mem.2
    refine iff_of_true ?_ (by omega)
    push_cast
    norm_num
    linarith
  · have hiff := t.le_fractionReal_iff (.inr rfl)
    have hshift :
        ((8210266876800 : Int) : ℚ) - 1 / 2 ^ 11 ≤ (t.unixSeconds : ℚ) + t.fractionReal.value ↔
        ((2 : Nat) : ℚ) - 1 / 2 ^ 11 ≤ t.fractionReal.value := by
      rw [hsecond]
      push_cast
      constructor <;> intro h <;> linarith
    rw [hshift, hiff]
    omega
  · have hiff := t.le_fractionReal_iff (.inl rfl)
    have hshift :
        ((8210266876800 : Int) : ℚ) - 1 / 2 ^ 11 ≤ (t.unixSeconds : ℚ) + t.fractionReal.value ↔
        ((1 : Nat) : ℚ) - 1 / 2 ^ 11 ≤ t.fractionReal.value := by
      rw [hlast]
      push_cast
      constructor <;> intro h <;> linarith
    rw [hshift, hiff]
    omega

end TypedTables.DateTime
