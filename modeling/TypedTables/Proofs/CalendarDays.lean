import TypedTables.Calendar.DateTime

/-!
# Days and dates

The number of a day determines its date and the other way round: a date is what its day number is
read as, and a number is the day number of a date exactly if it lies between those of the first and
the last date of the calendar.
-/
namespace TypedTables.Date

/-- The number of days of a year of an era, counted from March: the leap day is the last one. -/
def yearDays (year : Nat) : Nat :=
  if (year + 1) % 4 = 0 ∧ ((year + 1) % 100 ≠ 0 ∨ year = 399) then 366 else 365

/-- The days before a year of an era, by centuries and groups of four years. -/
theorem daysBeforeYear_parts {century group rest : Nat} (hgroup : group ≤ 24) (hrest : rest ≤ 3) :
    daysBeforeYear (century * 100 + group * 4 + rest) =
      century * 36524 + group * 1461 + rest * 365 := by
  simp only [daysBeforeYear]
  omega

/-- Only the last year of a group is longer, and that of the last group only in the last century. -/
theorem yearDays_parts {century group rest : Nat} (hcentury : century ≤ 3) (hgroup : group ≤ 24)
    (hrest : rest ≤ 3) :
    yearDays (century * 100 + group * 4 + rest) =
      if rest = 3 ∧ (group = 24 → century = 3) then 366 else 365 := by
  have hfour : (century * 100 + group * 4 + rest + 1) % 4 = (rest + 1) % 4 := by omega
  have hhundred : (century * 100 + group * 4 + rest + 1) % 100 = (group * 4 + rest + 1) % 100 := by
    omega
  have hlast : century * 100 + group * 4 + rest = 399 ↔ century = 3 ∧ group = 24 ∧ rest = 3 := by
    omega
  simp only [yearDays, hfour, hhundred, hlast]
  have hiff : ((rest + 1) % 4 = 0 ∧
      ((group * 4 + rest + 1) % 100 ≠ 0 ∨ century = 3 ∧ group = 24 ∧ rest = 3)) ↔
      rest = 3 ∧ (group = 24 → century = 3) := by omega
  simp only [hiff]

theorem yearOfEra_daysBeforeYear {year day : Nat} (hyear : year < 400)
    (hday : day < yearDays year) :
    yearOfEra (daysBeforeYear year + day) = (year, day) := by
  obtain ⟨c, f, r, hc, hf, hr, rfl⟩ : ∃ c f r, c ≤ 3 ∧ f ≤ 24 ∧ r ≤ 3 ∧
      year = c * 100 + f * 4 + r :=
    ⟨year / 100, year % 100 / 4, year % 4, by omega, by omega, by omega, by omega⟩
  rw [yearDays_parts hc hf hr] at hday
  rw [daysBeforeYear_parts hf hr]
  have hlong : day = 365 → r = 3 ∧ (f = 24 → c = 3) := by
    intro hd
    split at hday <;> omega
  have hshort : day ≤ 365 := by split at hday <;> omega
  clear hday
  have hcentury : min ((c * 36524 + f * 1461 + r * 365 + day) / 36524) 3 = c := by
    have hlow : f * 1461 + r * 365 + day < 36524 ∨ c = 3 ∧ f * 1461 + r * 365 + day ≤ 36524 := by
      omega
    clear hlong
    omega
  have hrest' : min ((r * 365 + day) / 365) 3 = r := by
    clear hcentury
    omega
  have hgroup : (f * 1461 + r * 365 + day) / 1461 = f := by omega
  have h₁ : c * 36524 + f * 1461 + r * 365 + day - c * 36524 = f * 1461 + r * 365 + day := by omega
  have h₂ : (f * 1461 + r * 365 + day) % 1461 = r * 365 + day := by omega
  have h₃ : r * 365 + day - r * 365 = day := Nat.add_sub_cancel_left ..
  simp only [yearOfEra, hcentury, h₁, hgroup, h₂, hrest', h₃]

/-- The year of an era and the day of it that a day of the era falls on. -/
theorem yearOfEra_spec {n : Nat} (hn : n < 146097) :
    (yearOfEra n).1 < 400 ∧ (yearOfEra n).2 < yearDays (yearOfEra n).1 ∧
      daysBeforeYear (yearOfEra n).1 + (yearOfEra n).2 = n := by
  have hcentury : min (n / 36524) 3 ≤ 3 := Nat.min_le_right ..
  -- the last day of an era makes its last century one day longer, as the last day of four years
  -- does there
  have hleft : n - min (n / 36524) 3 * 36524 ≤ 36524 ∧
      (n - min (n / 36524) 3 * 36524 = 36524 → min (n / 36524) 3 = 3) ∧
      min (n / 36524) 3 * 36524 ≤ n := by omega
  simp only [yearOfEra]
  generalize min (n / 36524) 3 = c at hcentury hleft ⊢
  obtain ⟨hleft, hlast, hle⟩ := hleft
  obtain ⟨n₁, rfl⟩ : ∃ n₁, n = c * 36524 + n₁ := ⟨n - c * 36524, by omega⟩
  rw [Nat.add_sub_cancel_left] at hleft hlast ⊢
  clear hn hle
  have hgroup : n₁ / 1461 ≤ 24 := by omega
  have hrest : min (n₁ % 1461 / 365) 3 ≤ 3 := Nat.min_le_right ..
  have hday : n₁ % 1461 - min (n₁ % 1461 / 365) 3 * 365 ≤ 365 ∧
      (n₁ % 1461 - min (n₁ % 1461 / 365) 3 * 365 = 365 → min (n₁ % 1461 / 365) 3 = 3) ∧
      min (n₁ % 1461 / 365) 3 * 365 ≤ n₁ % 1461 := by
    clear hlast
    omega
  generalize hr : min (n₁ % 1461 / 365) 3 = r at hrest hday ⊢
  have hsplit : n₁ = n₁ / 1461 * 1461 + n₁ % 1461 := (Nat.div_add_mod' n₁ 1461).symm
  rw [daysBeforeYear_parts hgroup hrest, yearDays_parts hcentury hgroup hrest]
  generalize n₁ / 1461 = f at hgroup hsplit ⊢
  generalize n₁ % 1461 = n₂ at hday hsplit ⊢
  clear hr
  refine ⟨by omega, ?_, by omega⟩
  split <;> omega

/-! ### Months -/

/-- The days of a month, and those of the year before it. -/
theorem daysBeforeMonth_add_monthLength (year : Int) {month : Nat} (h : 1 ≤ month ∧ month ≤ 12) :
    daysBeforeMonth ((month + 9) % 12) + monthLength year month =
      if month = 2 then (if isLeapYear year then 366 else 365)
        else daysBeforeMonth ((month + 9) % 12 + 1) := by
  obtain rfl | rfl | rfl | rfl | rfl | rfl | rfl | rfl | rfl | rfl | rfl | rfl :
    month = 1 ∨ month = 2 ∨
    month = 3 ∨ month = 4 ∨ month = 5 ∨ month = 6 ∨ month = 7 ∨ month = 8 ∨ month = 9 ∨ month = 10 ∨
    month = 11 ∨ month = 12 := by omega
  case inr.inl =>
    simp only [monthLength, if_true]
    split <;> rfl
  all_goals rfl

/-- A day of a year lies in one month, counted from March. -/
theorem month_of_day {day month : Nat} :
    (5 * day + 2) / 153 = month ↔ daysBeforeMonth month ≤ day ∧
    day < daysBeforeMonth (month + 1) := by
  simp only [daysBeforeMonth]
  omega

/-- The leap day is the last day of the year before, counted from March. -/
theorem yearDays_pred (year : Int) :
    yearDays ((year - 1) % 400).toNat = if isLeapYear year then 366 else 365 := by
  have hleap : isLeapYear year = true ↔ year % 4 = 0 ∧ (year % 100 ≠ 0 ∨ year % 400 = 0) := by
    simp [isLeapYear]
  have hiff : ((((year - 1) % 400).toNat + 1) % 4 = 0 ∧
      ((((year - 1) % 400).toNat + 1) % 100 ≠ 0 ∨ ((year - 1) % 400).toNat = 399)) ↔
        isLeapYear year = true := by
    rw [hleap]
    omega
  simp only [yearDays, hiff]

/-! ### Years -/

/-- The number of the day on which a year starts, counted from March. -/
def yearStart (year : Int) : Int := 365 * year + year / 4 - year / 100 + year / 400 - epochOffset

theorem yearStart_eq (year : Int) :
    yearStart year = year / 400 * eraDays +
      (daysBeforeYear (year % 400).toNat : Nat) - epochOffset := by
  obtain ⟨era, rest, hrest, rfl⟩ : ∃ (era : Int) (rest : Nat), rest < 400 ∧
      year = era * 400 + rest :=
    ⟨year / 400, (year % 400).toNat, by omega, by omega⟩
  have hdiv : (era * 400 + rest) / 400 = era := by omega
  have hmod : ((era * 400 + rest) % 400).toNat = rest := by omega
  have hdays : (daysBeforeYear rest : Int) = 365 * rest + rest / 4 - rest / 100 := by
    simp only [daysBeforeYear]
    omega
  rw [hdiv, hmod, hdays, yearStart, eraDays]
  omega

/-- Every year has at least 365 days. -/
theorem yearStart_add_le {year next : Int} (h : year < next) :
    yearStart year + 365 ≤ yearStart next := by
  simp only [yearStart]
  omega

/-- A year of an era ends within the era. -/
theorem daysBeforeYear_add_yearDays_le {year : Nat} (h : year < 400) :
    daysBeforeYear year + yearDays year ≤ 146097 := by
  have hdays : yearDays year ≤ 366 := by
    rw [yearDays]
    split <;> omega
  have hlast : year = 399 ∨ year ≤ 398 := by omega
  rcases hlast with rfl | hlast
  · decide
  · simp only [daysBeforeYear]
    omega

/-- What a number of days is read as, given the year, counted from March, and the day of it. -/
theorem ofDayNumber?_yearStart {year : Int} {day : Nat} (hday : day < yearDays (year % 400).toNat) :
    ofDayNumber? (yearStart year + day) =
      if (5 * day + 2) / 153 < 10 then
        of? year ((5 * day + 2) / 153 + 3) (day - daysBeforeMonth ((5 * day + 2) / 153) + 1)
      else of? (year + 1) ((5 * day + 2) / 153 - 9)
        (day - daysBeforeMonth ((5 * day + 2) / 153) + 1) := by
  have hyear : (year % 400).toNat < 400 := by omega
  have hera := daysBeforeYear_add_yearDays_le hyear
  have hcancel : yearStart year + day + epochOffset =
      year / 400 * eraDays + (daysBeforeYear (year % 400).toNat + day : Nat) := by
    rw [yearStart_eq]
    push_cast
    omega
  have hin : ((daysBeforeYear (year % 400).toNat + day : Nat) : Int) < eraDays := by
    simp only [eraDays]
    omega
  have hmod : ((yearStart year + day + epochOffset) % eraDays).toNat =
      daysBeforeYear (year % 400).toNat + day := by
    rw [hcancel, Int.add_comm, Int.add_mul_emod_self_right,
      Int.emod_eq_of_lt (Int.natCast_nonneg _) hin]
    rfl
  have hdiv : (yearStart year + day + epochOffset) / eraDays = year / 400 := by
    rw [hcancel, Int.add_comm, Int.add_mul_ediv_right _ _ (by decide),
      Int.ediv_eq_zero_of_lt (Int.natCast_nonneg _) hin,
      Int.zero_add]
  have hwhole : year / 400 * 400 + ((year % 400).toNat : Int) = year := by omega
  simp only [ofDayNumber?, hmod, hdiv, yearOfEra_daysBeforeYear hyear hday, hwhole]

/-- Every number of days is a day of a year. -/
theorem exists_yearStart (n : Int) :
    ∃ year day, day < yearDays (year % 400).toNat ∧ n = yearStart year + (day : Nat) := by
  have hn : ((n + epochOffset) % eraDays).toNat < 146097 := by
    simp only [eraDays]
    omega
  obtain ⟨hyear, hday, hsum⟩ := yearOfEra_spec hn
  generalize (yearOfEra ((n + epochOffset) % eraDays).toNat).1 = year at hyear hday hsum
  generalize (yearOfEra ((n + epochOffset) % eraDays).toNat).2 = day at hday hsum
  have hmod : (((n + epochOffset) / eraDays * 400 + year) % 400).toNat = year := by omega
  have hdiv : ((n + epochOffset) / eraDays * 400 + year) / 400 = (n + epochOffset) / eraDays := by
    omega
  refine ⟨(n + epochOffset) / eraDays * 400 + year, day, by rwa [hmod], ?_⟩
  rw [yearStart_eq, hmod, hdiv]
  have hparts := Int.mul_ediv_add_emod (n + epochOffset) eraDays
  simp only [eraDays] at hsum hparts ⊢
  omega

/-! ### Dates -/

/-- The year of a date, counted from March. -/
def marchYear (d : Date) : Int := if d.month ≤ 2 then d.year - 1 else d.year

/-- The day of the year of a date, counted from March. -/
def dayOfYear (d : Date) : Nat := daysBeforeMonth ((d.month + 9) % 12) + (d.day - 1)

theorem dayNumber_eq (d : Date) : d.dayNumber = yearStart d.marchYear + (d.dayOfYear : Nat) := by
  have hunfold : d.dayNumber = d.marchYear / 400 * eraDays +
      (daysBeforeYear (d.marchYear % 400).toNat + daysBeforeMonth ((d.month + 9) % 12) +
        (d.day - 1) : Nat) -
        epochOffset := rfl
  rw [hunfold, yearStart_eq, dayOfYear]
  push_cast
  omega

theorem dayOfYear_lt (d : Date) : d.dayOfYear < yearDays (d.marchYear % 400).toNat := by
  have hmonth := daysBeforeMonth_add_monthLength d.year d.month_mem
  have hday := d.day_mem
  by_cases h : d.month = 2
  · have hyear : d.marchYear = d.year - 1 := by rw [marchYear, if_pos (by omega)]
    rw [hyear, yearDays_pred, dayOfYear]
    rw [if_pos h] at hmonth
    omega
  · have hyear : 365 ≤ yearDays (d.marchYear % 400).toNat := by
      rw [yearDays]
      split <;> omega
    have hbefore : daysBeforeMonth ((d.month + 9) % 12 + 1) ≤ 337 := by
      have := d.month_mem
      simp only [daysBeforeMonth]
      omega
    rw [if_neg h] at hmonth
    rw [dayOfYear]
    omega

theorem of?_eq_some {year : Int} {month day : Nat} {d : Date} :
    of? year month day = some d ↔ d.year = year ∧ d.month = month ∧ d.day = day := by
  rw [of?]
  constructor
  · intro h
    split at h
    · cases h
      exact ⟨rfl, rfl, rfl⟩
    · cases h
  · rintro ⟨rfl, rfl, rfl⟩
    exact dif_pos ⟨d.year_mem, d.month_mem, d.day_mem⟩

theorem exists_of?_eq_some {year : Int} {month day : Nat} :
    (∃ d, of? year month day = some d) ↔ (leastYear ≤ year ∧ year ≤ greatestYear) ∧
      (1 ≤ month ∧ month ≤ 12) ∧ (1 ≤ day ∧ day ≤ monthLength year month) := by
  rw [of?]
  split <;> simp_all

theorem month_dayOfYear (d : Date) : (5 * d.dayOfYear + 2) / 153 = (d.month + 9) % 12 := by
  have hmonth := daysBeforeMonth_add_monthLength d.year d.month_mem
  have hday := d.day_mem
  refine month_of_day.mpr ⟨Nat.le_add_right .., ?_⟩
  rw [dayOfYear]
  by_cases h : d.month = 2
  · rw [if_pos h] at hmonth
    have hlast : daysBeforeMonth ((d.month + 9) % 12 + 1) = 367 := by rw [h]; rfl
    split at hmonth <;> omega
  · rw [if_neg h] at hmonth
    omega

/-- The day number of a date is read as the date. -/
theorem ofDayNumber?_dayNumber (d : Date) : ofDayNumber? d.dayNumber = some d := by
  have hmem := d.month_mem
  have hday := d.day_mem
  have hback : d.dayOfYear - daysBeforeMonth ((d.month + 9) % 12) + 1 = d.day := by
    rw [dayOfYear]
    omega
  rw [dayNumber_eq, ofDayNumber?_yearStart d.dayOfYear_lt, month_dayOfYear, hback]
  by_cases h : d.month ≤ 2
  · have hmonth : (d.month + 9) % 12 = d.month + 9 := by omega
    rw [marchYear, if_pos h, hmonth, if_neg (by omega)]
    exact of?_eq_some.mpr ⟨by omega, by omega, rfl⟩
  · have hmonth : (d.month + 9) % 12 = d.month - 3 := by omega
    rw [marchYear, if_neg h, hmonth, if_pos (by omega)]
    exact of?_eq_some.mpr ⟨rfl, by omega, rfl⟩

/-- What a number of days is read as has this day number. -/
theorem dayNumber_of_ofDayNumber? {n : Int} {d : Date} (h : ofDayNumber? n = some d) :
    d.dayNumber = n := by
  obtain ⟨year, day, hday, rfl⟩ := exists_yearStart n
  rw [ofDayNumber?_yearStart hday] at h
  have hlast : (5 * day + 2) / 153 ≤ 11 := by
    rw [yearDays] at hday
    split at hday <;> omega
  obtain ⟨hle, -⟩ := month_of_day.mp (rfl : (5 * day + 2) / 153 = (5 * day + 2) / 153)
  generalize (5 * day + 2) / 153 = month at h hlast hle
  rw [dayNumber_eq, dayOfYear, marchYear]
  split at h
  · obtain ⟨rfl, hmonth, hd⟩ := of?_eq_some.mp h
    have hback : (d.month + 9) % 12 = month := by omega
    rw [if_neg (by omega), hback]
    omega
  · obtain ⟨hyear, hmonth, hd⟩ := of?_eq_some.mp h
    have hback : (d.month + 9) % 12 = month := by omega
    have hmarch : d.year - 1 = year := by omega
    rw [if_pos (by omega), hback, hmarch]
    omega

theorem ofDayNumber?_eq_some {n : Int} {d : Date} : ofDayNumber? n = some d ↔ d.dayNumber = n :=
  ⟨dayNumber_of_ofDayNumber?, fun h => h ▸ ofDayNumber?_dayNumber d⟩

/-- A day of a year, counted from March, is a date if the year that the day lies in is one of the
calendar: the last two months lie in the next year. -/
theorem exists_ofDayNumber?_yearStart {year : Int} {day : Nat}
    (hday : day < yearDays (year % 400).toNat) :
    (∃ d, ofDayNumber? (yearStart year + day) = some d) ↔
      if day < 306 then leastYear ≤ year ∧ year ≤ greatestYear
      else leastYear ≤ year + 1 ∧ year + 1 ≤ greatestYear := by
  have hlong : day ≤ 365 := by
    rw [yearDays] at hday
    split at hday <;> omega
  obtain ⟨hle, hlt⟩ := month_of_day.mp (rfl : (5 * day + 2) / 153 = (5 * day + 2) / 153)
  have hten : (5 * day + 2) / 153 < 10 ↔ day < 306 := by omega
  have heleven : (5 * day + 2) / 153 ≤ 11 := by omega
  rw [ofDayNumber?_yearStart hday]
  generalize (5 * day + 2) / 153 = month at hle hlt hten heleven
  by_cases hmonth : month < 10
  · rw [if_pos hmonth, if_pos (hten.mp hmonth), exists_of?_eq_some]
    have hlength := daysBeforeMonth_add_monthLength year
      (show 1 ≤ month + 3 ∧ month + 3 ≤ 12 by omega)
    have hback : (month + 3 + 9) % 12 = month := by omega
    rw [hback, if_neg (by omega)] at hlength
    exact and_iff_left ⟨by omega, by omega, by omega⟩
  · rw [if_neg hmonth, if_neg (hmonth ∘ hten.mpr), exists_of?_eq_some]
    have hlength := daysBeforeMonth_add_monthLength (year + 1)
      (show 1 ≤ month - 9 ∧ month - 9 ≤ 12 by omega)
    have hback : (month - 9 + 9) % 12 = month := by omega
    have hyear := yearDays_pred (year + 1)
    rw [Int.add_sub_cancel] at hyear
    rw [hback, ← hyear] at hlength
    refine and_iff_left ⟨by omega, by omega, ?_⟩
    split at hlength
    · omega
    · omega

def first : Date := ⟨leastYear, 1, 1, by decide, by decide, by decide⟩

def last : Date := ⟨greatestYear, 12, 31, by decide, by decide, by decide⟩

theorem dayNumber_first : first.dayNumber = -96465292 := by decide

theorem dayNumber_last : last.dayNumber = 95026236 := by decide

/-- A number is a day number exactly if it lies between those of the first and the last date. -/
theorem exists_dayNumber_iff {n : Int} :
    (∃ d : Date, d.dayNumber = n) ↔ first.dayNumber ≤ n ∧ n ≤ last.dayNumber := by
  simp only [← ofDayNumber?_eq_some]
  obtain ⟨year, day, hday, rfl⟩ := exists_yearStart n
  rw [exists_ofDayNumber?_yearStart hday, dayNumber_first, dayNumber_last]
  have hlong : day ≤ 365 := by
    rw [yearDays] at hday
    split at hday <;> omega
  clear hday
  -- Every year but the two at the ends of the calendar lies on one side of an end, or between them.
  have hfirst : yearStart (-262144) = -96465598 := by decide
  have hlast : yearStart 262142 = 95025931 := by decide
  have hlow : year < -262144 → _ := yearStart_add_le
  have habove : -262144 < year → _ := yearStart_add_le
  have hbelow : year < 262142 → _ := yearStart_add_le
  have hhigh : 262142 < year → _ := yearStart_add_le
  rw [hfirst] at hlow habove
  rw [hlast] at hhigh hbelow
  have hfirstYear : year = -262144 → yearStart year = -96465598 := fun h => h ▸ hfirst
  have hlastYear : year = 262142 → yearStart year = 95025931 := fun h => h ▸ hlast
  clear hfirst hlast
  simp only [leastYear, greatestYear]
  generalize yearStart year = start at *
  split <;> omega

/-! ### The order of dates -/

/-- A year ends where the next one starts. -/
theorem yearStart_succ (year : Int) :
    yearStart (year + 1) = yearStart year + yearDays (year % 400).toNat := by
  simp only [yearStart, yearDays]
  split <;> omega

theorem yearStart_add_yearDays_le {year next : Int} (h : year < next) :
    yearStart year + yearDays (year % 400).toNat ≤ yearStart next := by
  rw [← yearStart_succ]
  rcases Int.lt_or_eq_of_le (Int.add_one_le_of_lt h) with hlt | heq
  · have := yearStart_add_le hlt
    omega
  · exact Int.le_of_eq (congrArg yearStart heq)

/-- A date has a smaller day number than those after it. -/
theorem dayNumber_lt {d e : Date} (h : d.year < e.year ∨
    d.year = e.year ∧ (d.month < e.month ∨ d.month = e.month ∧ d.day < e.day)) :
    d.dayNumber < e.dayNumber := by
  have hd := d.month_mem
  have he := e.month_mem
  -- the months count from March, so that the year of a date may be the one before
  have hmarch : d.marchYear < e.marchYear ∨ d.marchYear = e.marchYear ∧
      ((d.month + 9) % 12 < (e.month + 9) % 12 ∨ d.month = e.month ∧ d.day < e.day) := by
    rw [marchYear, marchYear]
    split <;> split <;> omega
  have hlt := dayOfYear_lt d
  have hmonth := month_dayOfYear d
  have hmonth' := month_dayOfYear e
  rw [dayNumber_eq, dayNumber_eq]
  rcases hmarch with hyear | ⟨hyear, hearlier | ⟨hsame, hday⟩⟩
  · have := yearStart_add_yearDays_le hyear
    omega
  · rw [hyear]
    omega
  · have hfirst := d.day_mem.1
    rw [hyear, dayOfYear, dayOfYear, hsame]
    omega

end TypedTables.Date
