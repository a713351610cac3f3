import Mathlib.Algebra.Group.Int.Defs
import TypedTables.Calendar.Iso
import TypedTables.Calendar.Reading
import TypedTables.Proofs.Building
import TypedTables.Proofs.DigitTexts

/-!
# Timestamps read back from their texts

The text of a timestamp is read in the first form as the timestamp itself. Only a time that goes
beyond its second although that is not the last one of its minute is read as the second after it.
-/
namespace TypedTables

/-! ### Digits -/

theorem digits_paddedDigits (width n : Nat) : Digits (paddedDigits width n) :=
  (digits_replicate _).append (digits_toDigits n)

theorem ofDigitChars_paddedDigits (width n : Nat) :
    Nat.ofDigitChars 10 (paddedDigits width n) 0 = n := by
  rw [paddedDigits, Nat.ofDigitChars_append, Nat.ofDigitChars_replicate_zero, Nat.mul_zero,
    Nat.ofDigitChars_ten_toDigits]

theorem paddedDigits_ne_nil (width n : Nat) : paddedDigits width n ≠ [] := by
  rw [paddedDigits]
  exact List.append_ne_nil_of_right_ne_nil _ Nat.toDigits_ne_nil

theorem length_paddedDigits {width n : Nat} (hwidth : 0 < width) (hn : n < 10 ^ width) :
    (paddedDigits width n).length = width := by
  have hle : (Nat.toDigits 10 n).length ≤ width :=
    (Nat.length_toDigits_le_iff (by decide) hwidth).mpr hn
  rw [paddedDigits, List.length_append, List.length_replicate]
  omega

/-- Digits are not blank. -/
theorem isBlank_of_isDigit {c : Char} (h : c.isDigit = true) : Text.isBlank c = false := by
  have hrange := toNat_mem_of_isDigit h
  have hnot : ¬Text.isBlank c = true := by
    simp only [Text.isBlank, Bool.or_eq_true, Bool.and_eq_true, decide_eq_true_eq, beq_iff_eq]
    omega
  exact Bool.eq_false_iff.mpr hnot

theorem trimStart_digits {ds : List Char} (hds : Digits ds) (hne : ds ≠ []) (rest : List Char) :
    Text.trimStart (ds ++ rest) = ds ++ rest := by
  cases ds with
  | nil => exact absurd rfl hne
  | cons d ds =>
    have hd := isBlank_of_isDigit (hds d List.mem_cons_self)
    rw [Text.trimStart, List.cons_append, List.dropWhile_cons_of_neg (by simp [hd])]

namespace DateTime

theorem digitsValue_eq (cs : List Char) : digitsValue cs = Nat.ofDigitChars 10 cs 0 := by
  rw [digitsValue, Nat.ofDigitChars_eq_foldl]
  congr 1
  funext n c
  rw [Nat.mul_comm]

/-- Digits are read as their number if the reader stops after them. -/
theorem natural_of_takeWhile {width : Option Nat} {ds rest : List Char}
    (hds : Digits ds) (hne : ds ≠ [])
    (hstop : (width.elim (ds ++ rest) (ds ++ rest).take).takeWhile Char.isDigit = ds)
    (hn : Nat.ofDigitChars 10 ds 0 < 2 ^ 63) :
    natural width (ds ++ rest) = .ok (Nat.ofDigitChars 10 ds 0, rest) := by
  cases ds with
  | nil => exact absurd rfl hne
  | cons d ds =>
    have hd := hds d List.mem_cons_self
    rw [List.cons_append] at hstop ⊢
    simp only [natural, hd, hstop, digitsValue_eq, Bool.not_true]
    rw [if_neg Bool.false_ne_true, if_pos hn, ← List.cons_append, List.drop_left]

/-- As many digits as the reader takes are read as their number. -/
theorem natural_width {ds : List Char} (hds : Digits ds) (hne : ds ≠ []) (rest : List Char)
    (hn : Nat.ofDigitChars 10 ds 0 < 2 ^ 63) :
    natural (some ds.length) (ds ++ rest) = .ok (Nat.ofDigitChars 10 ds 0, rest) := by
  refine natural_of_takeWhile hds hne ?_ hn
  have hall := takeWhile_digits hds (show EndsDigits [] from nofun)
  rw [List.append_nil] at hall
  rwa [Option.elim_some, List.take_left]

/-- The number of a given width is read back. -/
theorem natural_paddedDigits {width n : Nat} (hwidth : 0 < width) (hn : n < 10 ^ width)
    (hbound : n < 2 ^ 63) (rest : List Char) :
    natural (some width) (paddedDigits width n ++ rest) = .ok (n, rest) := by
  have h := natural_width (digits_paddedDigits width n) (paddedDigits_ne_nil width n) rest
  rw [length_paddedDigits hwidth hn, ofDigitChars_paddedDigits] at h
  exact h hbound

theorem twoDigits_paddedDigits {least greatest n : Nat} (hleast : least ≤ n)
    (hgreatest : n ≤ greatest) (hn : n < 100) (rest : List Char) :
    twoDigits least greatest (paddedDigits 2 n ++ rest) = .ok (n, rest) := by
  rw [twoDigits, trimStart_digits (digits_paddedDigits 2 n) (paddedDigits_ne_nil 2 n),
    natural_paddedDigits (by decide) hn (by omega)]
  exact if_pos (by simp [hleast, hgreatest])

/-- Any number of digits is read up to what is not one. -/
theorem natural_none (width : Nat) {n : Nat} (hbound : n < 2 ^ 63) {rest : List Char}
    (hrest : EndsDigits rest) : natural none (paddedDigits width n ++ rest) = .ok (n, rest) := by
  have hds := digits_paddedDigits width n
  have hread : natural none (paddedDigits width n ++ rest) =
      .ok (Nat.ofDigitChars 10 (paddedDigits width n) 0, rest) :=
    natural_of_takeWhile hds (paddedDigits_ne_nil width n) (takeWhile_digits hds hrest)
      (by rwa [ofDigitChars_paddedDigits])
  rwa [ofDigitChars_paddedDigits] at hread

theorem mem_years {n : Nat} (h : n < 2 ^ 31) :
    (-2 ^ 31 ≤ (n : Int) && (n : Int) < 2 ^ 31) = true ∧
    (-2 ^ 31 ≤ -(n : Int) && -(n : Int) < 2 ^ 31) = true := by
  simp only [Bool.and_eq_true, decide_eq_true_eq]
  omega

theorem year_minus {n : Nat} {cs rest : List Char}
    (hread : natural none cs = .ok (n, rest)) (hn : n < 2 ^ 31) :
    year ('-' :: cs) = .ok (-(n : Int), rest) := by
  have hstart : Text.trimStart ('-' :: cs) = '-' :: cs := rfl
  rw [year, hstart]
  simp only [hread]
  rw [except_ok_bind, except_ok_bind, if_pos (mem_years hn).2]

theorem year_plus {n : Nat} {cs rest : List Char}
    (hread : natural none cs = .ok (n, rest)) (hn : n < 2 ^ 31) :
    year ('+' :: cs) = .ok ((n : Int), rest) := by
  have hstart : Text.trimStart ('+' :: cs) = '+' :: cs := rfl
  rw [year, hstart]
  simp only [hread]
  rw [except_ok_bind, except_ok_bind, if_pos (mem_years hn).1]

theorem year_four {n : Nat} (hn : n < 10000) (rest : List Char) :
    year (paddedDigits 4 n ++ rest) = .ok ((n : Int), rest) := by
  have hds := digits_paddedDigits 4 n
  have hne := paddedDigits_ne_nil 4 n
  have hread : natural (some 4) (paddedDigits 4 n ++ rest) = .ok (n, rest) :=
    natural_paddedDigits (by decide) hn (by omega) rest
  have hsmall : n < 2 ^ 31 := by omega
  rw [year, trimStart_digits hds hne]
  split
  next h => exact absurd (isDigit_of_append hds hne h) (by decide)
  next h => exact absurd (isDigit_of_append hds hne h) (by decide)
  next =>
    simp only [hread]
    rw [except_ok_bind, except_ok_bind, if_pos (mem_years hsmall).1]

/-- A year is read up to the sign that follows it. -/
theorem year_yearChars {y : Int} (hy : y.natAbs < 2 ^ 31) {rest : List Char}
    (hrest : EndsDigits rest) :
    year (yearChars y ++ rest) = .ok (y, rest) := by
  have hread : natural none (paddedDigits 4 y.natAbs ++ rest) = .ok (y.natAbs, rest) :=
    natural_none 4 (by omega) hrest
  rw [yearChars]
  split
  next hplain =>
    rw [Bool.and_eq_true, decide_eq_true_eq, decide_eq_true_eq] at hplain
    rw [year_four (by omega), Int.toNat_of_nonneg hplain.1]
  next =>
    split
    next hneg => rw [List.cons_append, year_minus hread hy,
      Int.ofNat_natAbs_of_nonpos (by omega), Int.neg_neg]
    next hpos => rw [List.cons_append, year_plus hread hy, Int.natAbs_of_nonneg (by omega)]

/-- The digits of a fraction count from its highest place. -/
theorem fraction_paddedDigits {width n : Nat} (hwidth : 0 < width) (hnine : width ≤ 9)
    (hn : n < 10 ^ width) :
    fraction ('.' :: paddedDigits width n) = .ok (n * 10 ^ (9 - width), []) := by
  have hds := digits_paddedDigits width n
  have hlength := length_paddedDigits hwidth hn
  have hsmall : n < 2 ^ 63 := calc
    n < 10 ^ width := hn
    _ ≤ 10 ^ 9 := Nat.pow_le_pow_right (by decide) hnine
    _ < 2 ^ 63 := by decide
  have hstop : ((paddedDigits width n).take 9).takeWhile Char.isDigit = paddedDigits width n := by
    rw [List.take_of_length_le (by omega)]
    simpa using takeWhile_digits hds (show EndsDigits [] from nofun)
  have hread : natural (some 9) (paddedDigits width n ++ []) = .ok (n, []) := by
    have h : natural (some 9) (paddedDigits width n ++ []) =
        .ok (Nat.ofDigitChars 10 (paddedDigits width n) 0, []) :=
      natural_of_takeWhile hds (paddedDigits_ne_nil width n) (by simpa using hstop)
        (by rwa [ofDigitChars_paddedDigits])
    rwa [ofDigitChars_paddedDigits] at h
  rw [List.append_nil] at hread
  simp only [fraction, hread, except_ok_bind, hlength]
  rfl

/-- The fraction that is written of a number of nanoseconds is read as this number. -/
theorem fraction_fractionChars {nano : Nat} (h : nano < 1000000000) :
    fraction (fractionChars nano) = .ok (nano, []) := by
  rw [fractionChars]
  split
  next hzero => rw [hzero]; rfl
  split
  next hmilli =>
    rw [fraction_paddedDigits (by decide) (by decide) (by omega)]
    have hback : nano / 1000000 * 10 ^ (9 - 3) = nano := by omega
    rw [hback]
  split
  next hmicro =>
    rw [fraction_paddedDigits (by decide) (by decide) (by omega)]
    have hback : nano / 1000 * 10 ^ (9 - 6) = nano := by omega
    rw [hback]
  next => rw [fraction_paddedDigits (by decide) (by decide) (by omega), Nat.sub_self,
    Nat.pow_zero, Nat.mul_one]

end DateTime

/-- The time that a text says: the nanoseconds beyond a second count as the next one if there is one
in the minute. -/
def TimeOfDay.carried (t : TimeOfDay) : TimeOfDay :=
  if h : t.nano < 1000000000 ∨ t.second = 59 then t
  else ⟨t.hour, t.minute, t.second + 1, t.nano - 1000000000, t.hour_lt, t.minute_lt, by
    have := t.second_lt
    omega, by
    have := t.nano_lt
    omega⟩

namespace DateTime

theorem sign_cons {c : Char} (hc : Text.isBlank c = false) (rest : List Char) :
    sign c (Text.trimStart (c :: rest)) = .ok rest := by
  rw [Text.trimStart, List.dropWhile_cons_of_neg (by simp [hc])]
  exact if_pos rfl

theorem monthLength_le (year : Int) (month : Nat) : monthLength year month ≤ 31 := by
  rw [monthLength]
  split
  · split <;> decide
  · split <;> decide

/-- A second number of 60 is read as the last second of its minute, with one second more in the
nanoseconds. -/
theorem carried_second (t : TimeOfDay) :
    (if t.second + t.nano / 1000000000 = 60 then (59, t.nano % 1000000000 + 1000000000)
      else (t.second + t.nano / 1000000000, t.nano % 1000000000)) =
        (t.carried.second, t.carried.nano) := by
  have hsecond := t.second_lt
  have hnano := t.nano_lt
  by_cases h : t.nano < 1000000000 ∨ t.second = 59
  · rw [TimeOfDay.carried, dif_pos h]
    split
    · exact Prod.ext (by dsimp only; omega) (by dsimp only; omega)
    · exact Prod.ext (by dsimp only; omega) (by dsimp only; omega)
  · rw [TimeOfDay.carried, dif_neg h, if_neg (by omega)]
    exact Prod.ext (by dsimp only; omega) (by dsimp only; omega)

theorem carried_hour (t : TimeOfDay) : t.carried.hour = t.hour := by
  rw [TimeOfDay.carried]
  split <;> rfl

theorem carried_minute (t : TimeOfDay) : t.carried.minute = t.minute := by
  rw [TimeOfDay.carried]
  split <;> rfl

theorem of?_parts (t : DateTime) :
    of? t.date.year t.date.month t.date.day t.time.hour t.time.minute t.time.second t.time.nano =
      some t := by
  have hdate : Date.of? t.date.year t.date.month t.date.day = some t.date :=
    dif_pos ⟨t.date.year_mem, t.date.month_mem, t.date.day_mem⟩
  have htime : TimeOfDay.of? t.time.hour t.time.minute t.time.second t.time.nano = some t.time :=
    dif_pos ⟨t.time.hour_lt, t.time.minute_lt, t.time.second_lt, t.time.nano_lt⟩
  rw [of?, hdate, htime]
  rfl

/-- The text of a timestamp is read in the first form. -/
theorem readAs_isoChars (t : DateTime) :
    readAs .withT t.isoChars = .ok ⟨t.date, t.time.carried⟩ := by
  have hyear := t.date.year_mem
  have hmonth := t.date.month_mem
  have hday := t.date.day_mem
  have hlength := monthLength_le t.date.year t.date.month
  have hhour := t.time.hour_lt
  have hminute := t.time.minute_lt
  have hsecond := t.time.second_lt
  have hnano := t.time.nano_lt
  simp only [leastYear, greatestYear] at hyear
  have hmade := of?_parts ⟨t.date, t.time.carried⟩
  rw [carried_hour, carried_minute] at hmade
  simp only [isoChars, List.append_assoc, List.cons_append]
  rw [readAs, year_yearChars (by omega) (by rintro c ⟨⟩; rfl), except_ok_bind]
  simp only [Form.gap, Form.divider]
  rw [sign_cons rfl, except_ok_bind, twoDigits_paddedDigits (by omega) (by omega) (by omega),
    except_ok_bind, sign_cons rfl, except_ok_bind,
    twoDigits_paddedDigits (by omega) (by omega) (by omega), except_ok_bind, sign_cons rfl,
    except_ok_bind, twoDigits_paddedDigits (by omega) (by omega) (by omega), except_ok_bind,
    sign_cons rfl, except_ok_bind, twoDigits_paddedDigits (by omega) (by omega) (by omega),
    except_ok_bind, sign_cons rfl, except_ok_bind,
    twoDigits_paddedDigits (by omega) (by omega) (by omega), except_ok_bind,
    fraction_fractionChars (by omega), except_ok_bind]
  have hall : (!(Text.trimStart []).isEmpty) = false := rfl
  simp only [hall, Bool.false_eq_true, if_false, carried_second, hmade]

/-- The text of a timestamp is read as the timestamp, with the nanoseconds beyond its second
carried. -/
theorem parse_iso (t : DateTime) : parse t.iso = .ok ⟨t.date, t.time.carried⟩ := by
  rw [parse, iso, String.toList_ofList, readAs_isoChars]

end DateTime

end TypedTables
