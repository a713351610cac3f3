import Mathlib.Data.List.TakeWhile
import TypedTables.Engine.Query
import TypedTables.Proofs.OptionalTypes
import TypedTables.Proofs.TextOrder
import TypedTables.Proofs.TimestampTexts
import TypedTables.Proofs.UnixSeconds

/-!
# Timestamps in the order of time

Timestamps compare by their parts, from the year down to the nanoseconds. Their whole seconds since
1970 and then their nanoseconds give the same order, and so do their texts as long as the years have
four digits.
-/
namespace TypedTables

/-! ### Digits -/

theorem compare_paddedDigits {width m n : Nat} (hwidth : 0 < width) (hm : m < 10 ^ width)
    (hn : n < 10 ^ width) :
    compare (paddedDigits width m) (paddedDigits width n) = compare m n := by
  rw [compare_digits (digits_paddedDigits width m) (digits_paddedDigits width n)
    (by rw [length_paddedDigits hwidth hm, length_paddedDigits hwidth hn]),
    ofDigitChars_paddedDigits, ofDigitChars_paddedDigits]

theorem div_pow_lt {high low n : Nat} (hn : n < 10 ^ (high + low)) : n / 10 ^ low < 10 ^ high := by
  rwa [Nat.div_lt_iff_lt_mul (Nat.pow_pos (by decide)), ← Nat.pow_add]

/-- The digits of a number are those of its higher places, followed by those of its lower ones. -/
theorem paddedDigits_add {high low n : Nat} (hhigh : 0 < high) (hlow : 0 < low)
    (hn : n < 10 ^ (high + low)) :
    paddedDigits (high + low) n = paddedDigits high (n / 10 ^ low) ++
      paddedDigits low (n % 10 ^ low) := by
  have hmod := Nat.mod_lt n (Nat.pow_pos (n := low) (show 0 < 10 by decide))
  refine digits_inj (digits_paddedDigits _ _)
    ((digits_paddedDigits _ _).append (digits_paddedDigits _ _)) ?_ ?_
  · rw [List.length_append, length_paddedDigits (by omega) hn,
      length_paddedDigits hhigh (div_pow_lt hn), length_paddedDigits hlow hmod]
  · rw [Nat.ofDigitChars_append, ofDigitChars_paddedDigits, ofDigitChars_paddedDigits,
      Nat.ofDigitChars_eq_ofDigitChars_zero, ofDigitChars_paddedDigits,
      length_paddedDigits hlow hmod, Nat.div_add_mod]

theorem compare_paddedDigits_append {width m n : Nat} (hwidth : 0 < width) (hm : m < 10 ^ width)
    (hn : n < 10 ^ width) (as bs : List Char) :
    compare (paddedDigits width m ++ as) (paddedDigits width n ++ bs) =
      (compare m n).then (compare as bs) := by
  rw [compare_append (by rw [length_paddedDigits hwidth hm, length_paddedDigits hwidth hn]),
    compare_paddedDigits hwidth hm hn]

/-- Digits compare with a text of more digits as if zeros stood behind them, if what is left of the
longer text is not all zeros. -/
theorem compare_paddedDigits_add {high low m n : Nat} (hhigh : 0 < high) (hm : m < 10 ^ high)
    (hn : n < 10 ^ (high + low)) (hrest : low ≠ 0 → n % 10 ^ low ≠ 0) :
    compare (paddedDigits high m) (paddedDigits (high + low) n) = compare (m * 10 ^ low) n := by
  by_cases hlow : low = 0
  · subst hlow
    rw [Nat.pow_zero, Nat.mul_one]
    exact compare_paddedDigits hhigh hm hn
  have hpow : 0 < (10 : Nat) ^ low := Nat.pow_pos (by decide)
  have hdiv := div_pow_lt hn
  have hnumber : compare (m * 10 ^ low) n = (compare m (n / 10 ^ low)).then .lt := by
    have h : compare (m * 10 ^ low + 0) (n / 10 ^ low * 10 ^ low + n % 10 ^ low) = _ :=
      compare_mul_add hpow (Nat.mod_lt n hpow)
    rwa [Nat.add_zero, Nat.div_add_mod', Nat.compare_eq_lt.mpr (Nat.pos_of_ne_zero (hrest hlow))]
      at h
  obtain ⟨d, ds, hds⟩ := List.exists_cons_of_ne_nil (paddedDigits_ne_nil low (n % 10 ^ low))
  rw [paddedDigits_add hhigh (Nat.pos_of_ne_zero hlow) hn, ← List.append_nil (paddedDigits high m),
    compare_append (by rw [length_paddedDigits hhigh hm, length_paddedDigits hhigh hdiv]),
    compare_paddedDigits hhigh hm hdiv, hnumber, hds]
  rfl

/-! ### Fractions -/

def fractionWidth (nano : Nat) : Nat :=
  if nano = 0 then 0 else if nano % 1000000 = 0 then 3 else if nano % 1000 = 0 then 6 else 9

theorem fractionWidth_cases (nano : Nat) :
    (fractionWidth nano = 0 ∧ nano = 0) ∨ (fractionWidth nano = 3 ∧ nano % 1000000 = 0 ∧ nano ≠ 0) ∨
      (fractionWidth nano = 6 ∧ nano % 1000 = 0 ∧ nano % 1000000 ≠ 0) ∨
      (fractionWidth nano = 9 ∧ nano % 1000 ≠ 0) := by
  rw [fractionWidth]
  split
  · simp_all
  split
  · simp_all
  split
  · simp_all
  · simp_all

/-- A fraction has the digits of its nanoseconds but for zeros at their end. -/
theorem fractionChars_spec {nano : Nat} (h : nano < 1000000000) (hne : nano ≠ 0) :
    ∃ digits, 0 < fractionWidth nano ∧ fractionWidth nano ≤ 9 ∧ digits < 10 ^ fractionWidth nano ∧
      nano = digits * 10 ^ (9 - fractionWidth nano) ∧
      fractionChars nano = '.' :: paddedDigits (fractionWidth nano) digits := by
  rw [fractionChars, fractionWidth, if_neg hne, if_neg hne]
  split
  · exact ⟨_, by omega, by omega, by omega, by omega, rfl⟩
  split
  · exact ⟨_, by omega, by omega, by omega, by omega, rfl⟩
  · exact ⟨_, by omega, by omega, by omega, by omega, rfl⟩

/-- The digits that one fraction has more than another are not all zeros. -/
theorem mod_ne_zero_of_fractionWidth_lt {m n : Nat} (hn : n < 1000000000)
    (h : fractionWidth m < fractionWidth n) :
    n % 10 ^ (9 - fractionWidth m) ≠ 0 := by
  have hn := fractionWidth_cases n
  rcases fractionWidth_cases m with ⟨hm, -⟩ | ⟨hm, -⟩ | ⟨hm, -⟩ | ⟨hm, -⟩ <;>
    rw [hm] at h ⊢ <;> omega

theorem compare_fractionChars_of_le {m n : Nat} (hm : m < 1000000000) (hn : n < 1000000000)
    (h : fractionWidth m ≤ fractionWidth n) :
    compare (fractionChars m) (fractionChars n) = compare m n := by
  by_cases hne : n = 0
  · subst hne
    have hzero : m = 0 := by
      have hwidth : fractionWidth 0 = 0 := rfl
      have := fractionWidth_cases m
      omega
    rw [hzero, Std.compare_self, Std.compare_self]
  obtain ⟨q, -, hnine, hq, hnq, hlong⟩ := fractionChars_spec hn hne
  by_cases hzero : m = 0
  · rw [hzero, hlong, Nat.compare_eq_lt.mpr (Nat.pos_of_ne_zero hne)]
    rfl
  obtain ⟨p, hpos, -, hp, hmp, hshort⟩ := fractionChars_spec hm hzero
  obtain ⟨more, hmore⟩ := Nat.exists_eq_add_of_le h
  have hscale : 9 - fractionWidth m = more + (9 - fractionWidth n) := by omega
  -- if the further digits were all zeros, the longer fraction would be written without them
  have hrest : more ≠ 0 → q % 10 ^ more ≠ 0 := by
    intro hmore' hq
    refine mod_ne_zero_of_fractionWidth_lt (m := m) hn (by omega) ?_
    have hmul : q * 10 ^ (9 - fractionWidth n) % (10 ^ more * 10 ^ (9 - fractionWidth n)) = 0 := by
      rw [Nat.mul_mod_mul_right, hq, Nat.zero_mul]
    rwa [← hnq, ← Nat.pow_add, ← hscale] at hmul
  rw [hmore] at hq
  rw [hshort, hlong, List.compare_cons_cons, Std.compare_self, Ordering.eq_then, hmore,
    compare_paddedDigits_add hpos hp hq hrest,
    ← compare_mul_right _ _ (d := 10 ^ (9 - fractionWidth n)) (Nat.pow_pos (by decide)),
    Nat.mul_assoc, ← Nat.pow_add, ← hscale, ← hmp, ← hnq]

/-- Fractions compare as their nanoseconds, however many digits they have. -/
theorem compare_fractionChars {m n : Nat} (hm : m < 1000000000) (hn : n < 1000000000) :
    compare (fractionChars m) (fractionChars n) = compare m n := by
  rcases Nat.le_total (fractionWidth m) (fractionWidth n) with h | h
  · exact compare_fractionChars_of_le hm hn h
  · rw [Std.OrientedOrd.eq_swap, compare_fractionChars_of_le hn hm h, ← Std.OrientedOrd.eq_swap]

/-! ### Time -/

/-- Timestamps in the order of time: of two, the first part in which they differ decides. -/
instance : Ord DateTime := ⟨fun t u => compare t.parts u.parts⟩

instance : LE DateTime := leOfOrd

/-- A time lies within its second, or in the leap second behind the last second of a minute. -/
def TimeOfDay.Regular (t : TimeOfDay) : Prop := t.nano < 1000000000 ∨ t.second = 59

theorem TimeOfDay.compare_seconds (t u : TimeOfDay) : compare t.seconds u.seconds =
    (compare t.hour u.hour).then
      ((compare t.minute u.minute).then (compare t.second u.second)) := by
  have hseconds (v : TimeOfDay) : v.seconds = (v.hour * 60 + v.minute) * 60 + v.second := by
    rw [seconds]
    omega
  rw [hseconds, hseconds, compare_mul_add t.second_lt u.second_lt,
    compare_mul_add t.minute_lt u.minute_lt, Ordering.then_assoc]

/-- Numbers compare with what goes beyond their lower place carried into the upper one. -/
theorem compare_carry (a b m n : Nat) {d : Nat} (hd : 0 < d) :
    (compare (a + m / d) (b + n / d)).then (compare (m % d) (n % d)) =
      compare (a * d + m) (b * d + n) := by
  rw [← compare_mul_add (Nat.mod_lt m hd) (Nat.mod_lt n hd), Nat.add_mul, Nat.add_mul,
    Nat.add_assoc, Nat.add_assoc, Nat.div_add_mod', Nat.div_add_mod']

/-- A leap second is written as second 60, which keeps the order of regular times. -/
theorem TimeOfDay.Regular.compare_second {t u : TimeOfDay} (ht : t.Regular) (hu : u.Regular) :
    (compare (t.second + t.nano / 1000000000) (u.second + u.nano / 1000000000)).then
        (compare (t.nano % 1000000000) (u.nano % 1000000000)) =
      (compare t.second u.second).then (compare t.nano u.nano) := by
  have hsecond := t.second_lt
  have hsecond' := u.second_lt
  rw [compare_carry _ _ _ _ (by decide)]
  simp only [Regular] at ht hu
  rcases Nat.lt_trichotomy t.second u.second with h | h | h
  · have hlt : t.second * 1000000000 + t.nano < u.second * 1000000000 + u.nano := by omega
    rw [Nat.compare_eq_lt.mpr h, Nat.compare_eq_lt.mpr hlt, Ordering.lt_then]
  · rw [h, Std.compare_self, Nat.add_comm, Nat.add_comm _ u.nano,
      compare_add_right, Ordering.eq_then]
  · have hgt : u.second * 1000000000 + u.nano < t.second * 1000000000 + t.nano := by omega
    rw [Nat.compare_eq_gt.mpr h, Nat.compare_eq_gt.mpr hgt, Ordering.gt_then]

namespace Date

/-- A number that grows with the year, the month and the day. -/
def serial (d : Date) : Int := (d.year * 13 + d.month) * 32 + d.day

theorem day_lt (d : Date) : d.day < 32 :=
  Nat.lt_succ_of_le (d.day_mem.2.trans (DateTime.monthLength_le d.year d.month))

theorem compare_serial (d e : Date) : compare d.serial e.serial =
    (compare d.year e.year).then ((compare d.month e.month).then (compare d.day e.day)) := by
  have hd := d.day_lt
  have he := e.day_lt
  have hmonth := d.month_mem
  have hmonth' := e.month_mem
  rw [serial, serial, compare_mul_add_int (by omega) (by omega),
    compare_mul_add_int (by omega) (by omega), compare_natCast, compare_natCast,
    Ordering.then_assoc]

theorem dayNumber_lt_of_serial_lt {d e : Date} (h : d.serial < e.serial) :
    d.dayNumber < e.dayNumber := by
  have hd := d.day_lt
  have he := e.day_lt
  have hmonth := d.month_mem
  have hmonth' := e.month_mem
  rw [serial, serial] at h
  exact dayNumber_lt (by omega)

theorem eq_of_serial_eq {d e : Date} (h : d.serial = e.serial) : d = e := by
  have hcompare := compare_serial d e
  rw [h, Std.compare_self] at hcompare
  obtain ⟨hyear, hrest⟩ := Ordering.then_eq_eq.mp hcompare.symm
  obtain ⟨hmonth, hday⟩ := Ordering.then_eq_eq.mp hrest
  cases d
  cases e
  cases Std.LawfulEqOrd.eq_of_compare hyear
  cases Std.LawfulEqOrd.eq_of_compare hmonth
  cases Std.LawfulEqOrd.eq_of_compare hday
  rfl

/-- Dates compare as their day numbers. -/
theorem compare_dayNumber (d e : Date) :
    compare d.dayNumber e.dayNumber = compare d.serial e.serial := by
  rcases Int.lt_trichotomy d.serial e.serial with h | h | h
  · rw [Int.compare_eq_lt.mpr h, Int.compare_eq_lt.mpr (dayNumber_lt_of_serial_lt h)]
  · rw [h, eq_of_serial_eq h, Std.compare_self, Std.compare_self]
  · rw [Int.compare_eq_gt.mpr h, Int.compare_eq_gt.mpr (dayNumber_lt_of_serial_lt h)]

end Date

namespace DateTime

theorem compare_eq (t u : DateTime) : compare t u =
    (compare t.date.serial u.date.serial).then
      ((compare t.time.seconds u.time.seconds).then (compare t.time.nano u.time.nano)) := by
  change compare t.parts u.parts = _
  simp only [parts, List.compare_cons_cons, compare_natCast, Std.compare_self, Ordering.then_eq,
    Date.compare_serial, TimeOfDay.compare_seconds, Ordering.then_assoc]

/-- Timestamps compare as their whole seconds since 1970, and then as their nanoseconds. -/
theorem compare_eq_unixSeconds (t u : DateTime) :
    compare t u = (compare t.unixSeconds u.unixSeconds).then (compare t.time.nano u.time.nano) := by
  have ht := seconds_lt t.time
  have hu := seconds_lt u.time
  rw [compare_eq, unixSeconds, unixSeconds,
    compare_mul_add_int (by omega) (by omega), compare_natCast, Date.compare_dayNumber,
    Ordering.then_assoc]

theorem unixSeconds_le {t u : DateTime} (h : t ≤ u) : t.unixSeconds ≤ u.unixSeconds := by
  have hle : (compare t u).isLE = true := h
  rw [compare_eq_unixSeconds] at hle
  exact Int.isLE_compare.mp (Ordering.isLE_left_of_isLE_then hle)

/-- Only a timestamp itself compares as equal. -/
theorem compare_eq_eq {t u : DateTime} : compare t u = .eq ↔ t = u := by
  constructor
  · intro h
    have hparts : t.parts = u.parts := Std.LawfulEqOrd.eq_of_compare h
    obtain ⟨date, time⟩ := t
    obtain ⟨date', time'⟩ := u
    cases date
    cases time
    cases date'
    cases time'
    simp_all [parts]
  · rintro rfl
    exact Std.compare_self (α := List Int)

theorem compare_swap (t u : DateTime) : compare u t = (compare t u).swap :=
  Std.OrientedOrd.eq_swap (α := List Int)

structure Sortable (t : DateTime) : Prop where
  year_nonneg : 0 ≤ t.date.year
  year_le : t.date.year ≤ 9999
  regular : t.time.Regular

/-- The parts of a timestamp behind the year have two digits. -/
theorem parts_lt (t : DateTime) :
    t.date.month < 10 ^ 2 ∧ t.date.day < 10 ^ 2 ∧ t.time.hour < 10 ^ 2 ∧
    t.time.minute < 10 ^ 2 ∧ t.time.second + t.time.nano / 1000000000 < 10 ^ 2 := by
  have hmonth := t.date.month_mem
  have hday := t.date.day_lt
  have hhour := t.time.hour_lt
  have hminute := t.time.minute_lt
  have hsecond := t.time.second_lt
  have hnano := t.time.nano_lt
  omega

theorem Sortable.yearChars_eq {t : DateTime} (h : t.Sortable) :
    yearChars t.date.year = paddedDigits 4 t.date.year.toNat :=
  if_pos (by simp [h.year_nonneg, h.year_le])

/-- The characters of the text of a timestamp, with a character of one's own between date and
time. -/
def isoCharsWith (mark : Char) (t : DateTime) : List Char :=
  yearChars t.date.year ++ '-' :: paddedDigits 2 t.date.month ++ '-' :: paddedDigits 2 t.date.day ++
    mark :: paddedDigits 2 t.time.hour ++ ':' :: paddedDigits 2 t.time.minute ++
    ':' :: paddedDigits 2 (t.time.second + t.time.nano / 1000000000) ++
    fractionChars (t.time.nano % 1000000000)

/-- The texts of timestamps with years of four digits compare as the timestamps, whatever stands
between date and time. -/
theorem Sortable.compare_isoCharsWith (mark : Char) {t u : DateTime}
    (ht : t.Sortable) (hu : u.Sortable) :
    compare (t.isoCharsWith mark) (u.isoCharsWith mark) = compare t u := by
  obtain ⟨hmonth, hday, hhour, hminute, hsecond⟩ := t.parts_lt
  obtain ⟨hmonth', hday', hhour', hminute', hsecond'⟩ := u.parts_lt
  have hyear : t.date.year.toNat < 10 ^ 4 := by have := ht.year_le; omega
  have hyear' : u.date.year.toNat < 10 ^ 4 := by have := hu.year_le; omega
  have hyears : compare t.date.year.toNat u.date.year.toNat = compare t.date.year u.date.year := by
    rw [← compare_natCast, Int.toNat_of_nonneg ht.year_nonneg, Int.toNat_of_nonneg hu.year_nonneg]
  simp only [isoCharsWith, List.append_assoc, List.cons_append, ht.yearChars_eq, hu.yearChars_eq]
  rw [compare_paddedDigits_append (by decide) hyear hyear', compare_cons_self,
    compare_paddedDigits_append (by decide) hmonth hmonth', compare_cons_self,
    compare_paddedDigits_append (by decide) hday hday', compare_cons_self,
    compare_paddedDigits_append (by decide) hhour hhour', compare_cons_self,
    compare_paddedDigits_append (by decide) hminute hminute', compare_cons_self,
    compare_paddedDigits_append (by decide) hsecond hsecond',
    compare_fractionChars (Nat.mod_lt _ (by decide)) (Nat.mod_lt _ (by decide)),
    ht.regular.compare_second hu.regular, hyears, compare_eq, Date.compare_serial,
    TimeOfDay.compare_seconds]
  simp only [Ordering.then_assoc]

theorem Sortable.compare_iso {t u : DateTime} (ht : t.Sortable) (hu : u.Sortable) :
    compare t.iso u.iso = compare t u := by
  rw [compare_toList, iso, iso, String.toList_ofList, String.toList_ofList]
  exact ht.compare_isoCharsWith 'T' hu

/-- What holds of digits and of the marks between them holds of the characters of the text. -/
theorem Sortable.forall_mem_isoChars {P : Char → Prop} (hdigit : ∀ c, c.isDigit = true → P c)
    (hmark : ∀ c ∈ ['-', 'T', ':', '.'], P c) {t : DateTime} (ht : t.Sortable) :
    ∀ c ∈ t.isoChars, P c := by
  have hpadded (width n : Nat) : ∀ c ∈ paddedDigits width n, P c :=
    fun c hc => hdigit c (digits_paddedDigits width n c hc)
  have hfraction (nano : Nat) : ∀ c ∈ fractionChars nano, P c := by
    rw [fractionChars]
    split_ifs
    · exact fun c hc => absurd hc List.not_mem_nil
    all_goals exact List.forall_mem_cons.mpr ⟨hmark '.' (by decide), hpadded _ _⟩
  simp only [isoChars, ht.yearChars_eq, List.forall_mem_append, List.forall_mem_cons]
  have hdash := hmark '-' (by decide)
  have hcolon := hmark ':' (by decide)
  exact ⟨⟨⟨⟨⟨⟨hpadded _ _, hdash, hpadded _ _⟩, hdash, hpadded _ _⟩,
    hmark 'T' (by decide), hpadded _ _⟩, hcolon, hpadded _ _⟩, hcolon, hpadded _ _⟩, hfraction _⟩

theorem toLower_of_isDigit {c : Char} (h : c.isDigit = true) : c.toLower = c := by
  refine dif_neg fun hletter => ?_
  simp only [Char.isDigit, Bool.and_eq_true, decide_eq_true_eq] at h
  exact absurd (UInt32.le_trans hletter.1 h.2) (by decide)

theorem Sortable.map_toLower_isoChars {t : DateTime} (ht : t.Sortable) :
    t.isoChars.map Char.toLower = t.isoCharsWith 't' := by
  have hpadded (width n : Nat) : (paddedDigits width n).map Char.toLower = paddedDigits width n :=
    (List.map_congr_left fun c hc => toLower_of_isDigit (digits_paddedDigits width n c hc)).trans
      (List.map_id _)
  have hfraction (nano : Nat) : (fractionChars nano).map Char.toLower = fractionChars nano := by
    rw [fractionChars]
    split_ifs
    · rfl
    all_goals rw [List.map_cons, hpadded]; rfl
  have hdash : Char.toLower '-' = '-' := rfl
  have hcolon : Char.toLower ':' = ':' := rfl
  have hmark : Char.toLower 'T' = 't' := rfl
  simp only [isoChars, isoCharsWith, ht.yearChars_eq, List.map_append,
    List.map_cons, hpadded, hfraction, hdash, hcolon, hmark]

/-- Every collation compares the texts as the timestamps. -/
theorem Sortable.compareTexts_iso (k : Engine.Collation) {t u : DateTime} (ht : t.Sortable)
    (hu : u.Sortable) : k.compareTexts t.iso u.iso = compare t u := by
  cases k with
  | binary => exact ht.compare_iso hu
  | noCase =>
    have hcaseless {v : DateTime} (hv : v.Sortable) :
        (Engine.Collation.caseless v.iso).toList = v.isoCharsWith 't' := by
      have hnul : v.isoChars.takeWhile (· ≠ '\x00') = v.isoChars := by
        refine List.takeWhile_eq_self_iff.mpr fun c hc => decide_eq_true ?_
        refine hv.forall_mem_isoChars (P := (· ≠ '\x00')) ?_ (by simp) c hc
        rintro c hdigit rfl
        cases hdigit
      rw [Engine.Collation.caseless, iso, String.toList_ofList, String.toList_ofList, hnul,
        hv.map_toLower_isoChars]
    have hsize (h : compare t u = .eq) : compare t.iso.utf8ByteSize u.iso.utf8ByteSize = .eq := by
      rw [compare_eq_eq.mp h]
      exact Std.compare_self
    rw [Engine.Collation.compareTexts, compare_toList, hcaseless ht, hcaseless hu,
      ht.compare_isoCharsWith 't' hu]
    cases h : compare t u with
    | eq => exact hsize h
    | _ => rfl
  | rtrim =>
    have hunpadded {v : DateTime} (hv : v.Sortable) : Engine.Collation.unpadded v.iso = v.iso := by
      have hblank : v.isoChars.reverse.dropWhile (· = ' ') = v.isoChars.reverse := by
        refine List.dropWhile_eq_self_iff.mpr fun hpos => ?_
        have hmem := List.mem_reverse.mp (List.getElem_mem hpos)
        have hmarks := hv.forall_mem_isoChars (P := (· ≠ ' ')) ?_ (by simp) _ hmem
        · simpa using hmarks
        · rintro c hdigit rfl
          cases hdigit
      rw [Engine.Collation.unpadded, iso, String.toList_ofList, hblank, List.reverse_reverse]
    rw [Engine.Collation.compareTexts, hunpadded ht, hunpadded hu, ht.compare_iso hu]

end DateTime

namespace Engine

/-- Texts are compared as they are, unless a number is asked for. -/
theorem comparison_text {affinity : Affinity} (h : affinity.isNumeric = false) (op : Comparison)
    (k : Collation) (a b : String) :
    Expr.comparison op affinity k (.text a) (.text b) = some (op.holds (k.compareTexts a b)) := by
  have hconverted : converted affinity (.text a) (.text b) = (.text a, .text b) := by
    rw [converted, if_neg (by simp [h])]
    split <;> rfl
  rw [Expr.comparison, if_neg (by simp), hconverted]
  rfl

theorem compareKeys_ascending (k : Collation) (a b : Stored) :
    compareKeys [(.ascending, k)] [a] [b] = k.compare a b := by
  cases h : k.compare a b <;> simp [compareKeys, h]

theorem compareKeys_descending (k : Collation) (a b : Stored) :
    compareKeys [(.descending, k)] [a] [b] = (k.compare a b).swap := by
  cases h : k.compare a b <;> simp [compareKeys, h]

end Engine

/-- Half a second into the leap second at the end of 2016. -/
def leapSecond : DateTime := (DateTime.of? 2016 12 31 23 59 59 1500000000).get (by decide)

def newYear : DateTime := (DateTime.of? 2017 1 1 0 0 0 0).get (by decide)

open Engine in
/-- The texts that are stored for timestamps, by a column or without one, compare byte by byte as
the timestamps do in time, and are the same only for the same timestamp. So the engine compares the
columns and sorts by them in the order of time, whatever their collation. -/
theorem iso_texts_ordered {t u : DateTime} (ht : t.Sortable) (hu : u.Sortable) (wrapped : Bool)
    (asked : Option Affinity) :
    ∃ r a b, ResolvedType.of? (if wrapped then .optional (.timestamp .iso8601)
        else .timestamp .iso8601) asked =
        some r ∧
      (r.encode (.timestamp t) = .ok (.text a) ∧ (Value.timestamp t).toStored = .text a) ∧
      (r.encode (.timestamp u) = .ok (.text b) ∧ (Value.timestamp u).toStored = .text b) ∧
      compareBytes (Clause.bytes a) (Clause.bytes b) = compare t u ∧ (a = b ↔ t = u) ∧
      (∀ op affinity collation, affinity.isNumeric = false →
        Expr.comparison op affinity collation (.text a) (.text b) = some (op.holds (compare t u))) ∧
      (∀ collation, compareKeys [(.ascending, collation)] [.text a] [.text b] = compare t u) ∧
      ∀ collation, compareKeys [(.descending, collation)] [.text a] [.text b] = compare u t := by
  obtain ⟨affinity, hr⟩ := ResolvedType.of?_timestamp .iso8601 wrapped asked
  have hcompare := ht.compare_iso hu
  refine ⟨_, t.iso, u.iso, hr, ⟨rfl, rfl⟩, ⟨rfl, rfl⟩, ?_, ?_, ?_, ?_, ?_⟩
  · rw [Utf8.compareBytes_bytes, hcompare]
  · rw [← DateTime.compare_eq_eq, ← hcompare]
    exact Std.LawfulEqOrd.compare_eq_iff_eq.symm
  · intro op affinity collation hnumeric
    rw [comparison_text hnumeric, ht.compareTexts_iso collation hu]
  · intro collation
    rw [compareKeys_ascending, Collation.compare, ht.compareTexts_iso collation hu]
  · intro collation
    rw [compareKeys_descending, Collation.compare, ht.compareTexts_iso collation hu]
    exact (DateTime.compare_swap t u).symm

open Engine in
theorem leap_second_text_before_new_year : leapSecond.Sortable ∧ newYear.Sortable ∧
    compareBytes (Clause.bytes "2016-12-31T23:59:60.500") (Clause.bytes "2017-01-01T00:00:00") =
      .lt := by
  have hleap : leapSecond.Sortable := ⟨by decide, by decide, .inr rfl⟩
  have hnew : newYear.Sortable := ⟨by decide, by decide, .inl (by decide)⟩
  refine ⟨hleap, hnew, ?_⟩
  obtain ⟨r, a, b, -, ⟨-, ha⟩, ⟨-, hb⟩, hcompare, -⟩ := iso_texts_ordered hleap hnew true none
  have hleaptext : (Value.timestamp leapSecond).toStored = .text "2016-12-31T23:59:60.500" := by
    decide
  have hnewtext : (Value.timestamp newYear).toStored = .text "2017-01-01T00:00:00" := by decide
  have hlt : compare leapSecond newYear = .lt := by decide
  cases hleaptext.symm.trans ha
  cases hnewtext.symm.trans hb
  exact hcompare.trans hlt

end TypedTables
