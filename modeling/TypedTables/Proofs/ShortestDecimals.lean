import TypedTables.Number.Decimal
import TypedTables.Proofs.RoundedValues

/-!
# Bounds of the shortest decimal

The shortest decimal of a number is not more than half a place above the number, and its power of
ten lies in a fixed range.
-/
namespace TypedTables

namespace Decimal

def value (d : Decimal) : ℚ := d.digits * 10 ^ d.exponent

theorem ratio_value (d : Decimal) : (d.ratio.1 : ℚ) / d.ratio.2 = d.value ∧ 0 < d.ratio.2 := by
  rw [ratio, value]
  split
  next h =>
    obtain ⟨k, hk⟩ := Int.eq_ofNat_of_zero_le h
    rw [hk, Int.toNat_natCast, zpow_natCast]
    refine ⟨?_, Nat.one_pos⟩
    push_cast
    ring
  next h =>
    obtain ⟨k, hk⟩ : ∃ k : Nat, d.exponent = -(k : Int) := ⟨(-d.exponent).toNat, by omega⟩
    rw [hk, Int.neg_neg, Int.toNat_natCast, zpow_neg, zpow_natCast]
    refine ⟨?_, Nat.pow_pos (by decide)⟩
    push_cast
    rfl

end Decimal

namespace Binary64

/-- A decimal that rounds to a number lies between the ends. -/
theorem roundsFrom_ends {m : Nat} {q : Int} {d : Decimal} (h : roundsFrom m q d = true) :
    ((quarterEnds m q).1 : ℚ) / 2 ^ (2 - q) ≤ d.value ∧
    d.value ≤ (quarterEnds m q).2 / 2 ^ (2 - q) := by
  obtain ⟨hvalue, hb⟩ := d.ratio_value
  set lo := (quarterEnds m q).1 with hlo
  set hi := (quarterEnds m q).2 with hhi
  have hs := scaled_den_pos Nat.one_pos lo (2 - q)
  have ht := scaled_den_pos Nat.one_pos hi (2 - q)
  have hl := scaled_eq lo 1 (2 - q)
  have hh := scaled_eq hi 1 (2 - q)
  -- the ends count only for an even significand, but that they bound the decimal is true in both
  -- cases
  have hends : (scaled lo 1 (2 - q)).1 * d.ratio.2 ≤ d.ratio.1 * (scaled lo 1 (2 - q)).2 ∧
      d.ratio.1 * (scaled hi 1 (2 - q)).2 ≤ (scaled hi 1 (2 - q)).1 * d.ratio.2 := by
    have hboth : roundsFrom m q d =
        if m % 2 = 0 then
          decide ((scaled lo 1 (2 - q)).1 * d.ratio.2 ≤ d.ratio.1 * (scaled lo 1 (2 - q)).2) &&
            decide (d.ratio.1 * (scaled hi 1 (2 - q)).2 ≤ (scaled hi 1 (2 - q)).1 * d.ratio.2)
        else
          decide ((scaled lo 1 (2 - q)).1 * d.ratio.2 < d.ratio.1 * (scaled lo 1 (2 - q)).2) &&
            decide (d.ratio.1 * (scaled hi 1 (2 - q)).2 < (scaled hi 1 (2 - q)).1 * d.ratio.2) :=
              rfl
    rw [hboth] at h
    split at h
    · simpa using h
    · rw [Bool.and_eq_true, decide_eq_true_eq, decide_eq_true_eq] at h
      exact ⟨h.1.le, h.2.le⟩
  rw [Nat.cast_one, div_one] at hl hh
  have hb' : (0 : ℚ) < d.ratio.2 := by exact_mod_cast hb
  have hs' : (0 : ℚ) < (scaled lo 1 (2 - q)).2 := by exact_mod_cast hs
  have ht' : (0 : ℚ) < (scaled hi 1 (2 - q)).2 := by exact_mod_cast ht
  constructor
  · rw [← hvalue, ← hl, div_le_div_iff₀ hs' hb']
    exact_mod_cast hends.1
  · rw [← hvalue, ← hh, div_le_div_iff₀ hb' ht']
    exact_mod_cast hends.2

/-- A decimal that rounds to a number is not more than half a place above it, and is not zero. -/
theorem roundsFrom_bounds {m : Nat} {q : Int} {d : Decimal} (hm : m ≠ 0)
    (h : roundsFrom m q d = true) :
    d.value ≤ (m + 1 / 2) * 2 ^ q ∧ d.digits ≠ 0 := by
  obtain ⟨hlow, hhigh⟩ := roundsFrom_ends h
  constructor
  · have hquarters : ((quarterEnds m q).2 : ℚ) = 4 * m + 2 := by
      rw [quarterEnds]
      push_cast
      rfl
    have hpow : (2 : ℚ) ^ (2 - q) * 2 ^ q = 4 := by
      rw [← two_zpow_add, show 2 - q + q = ((2 : Nat) : Int) by omega, zpow_natCast]
      norm_num
    refine hhigh.trans_eq ?_
    rw [hquarters, div_eq_iff (two_zpow_pos _).ne', mul_assoc, mul_comm ((2 : ℚ) ^ q), hpow]
    ring
  · intro hdigits
    have hpos : 0 < (quarterEnds m q).1 := by
      rw [quarterEnds]
      dsimp only
      split <;> omega
    have hpos' : (0 : ℚ) < (quarterEnds m q).1 := by exact_mod_cast hpos
    rw [Decimal.value, hdigits, Nat.cast_zero, zero_mul] at hlow
    exact absurd (div_pos hpos' (two_zpow_pos (2 - q))) (not_lt.mpr hlow)

/-- A point of a grid that is taken rounds to the number. -/
theorem onGrid_eq_some {m : Nat} {q k : Int} {d : Decimal} (h : onGrid m q k = some d) :
    roundsFrom m q d = true ∧ d.exponent = k := by
  obtain ⟨ab, hab⟩ : ∃ ab : Nat × Nat, ab = if 0 ≤ k then
      ((scaled m 1 (-q)).1, (scaled m 1 (-q)).2 * 10 ^ k.toNat)
    else ((scaled m 1 (-q)).1 * 10 ^ (-k).toNat, (scaled m 1 (-q)).2) := ⟨_, rfl⟩
  rw [onGrid] at h
  simp only [← hab] at h
  cases hbelow : roundsFrom m q ⟨ab.1 / ab.2, k⟩ with
  | true =>
    cases habove : roundsFrom m q ⟨ab.1 / ab.2 + 1, k⟩ with
    | true =>
      simp only [hbelow, habove] at h
      split at h
      · cases h
        exact ⟨hbelow, rfl⟩
      · cases h
        exact ⟨habove, rfl⟩
    | false =>
      simp only [hbelow, habove] at h
      cases h
      exact ⟨hbelow, rfl⟩
  | false =>
    cases habove : roundsFrom m q ⟨ab.1 / ab.2 + 1, k⟩ with
    | true =>
      simp only [hbelow, habove] at h
      cases h
      exact ⟨habove, rfl⟩
    | false =>
      simp only [hbelow, habove] at h
      cases h

/-- The shortest decimal is one that rounds to the number, on a grid of powers of ten. -/
theorem shortest_cases (m : Nat) (q : Int) :
    shortest m q = ⟨0, 0⟩ ∨ roundsFrom m q (shortest m q) = true ∧
      -350 ≤ (shortest m q).exponent ∧ (shortest m q).exponent ≤ 309 := by
  rw [shortest]
  cases hd : gridExponents.findSome? (onGrid m q) with
  | none => exact .inl rfl
  | some d =>
    obtain ⟨k, hk, hgrid⟩ := List.exists_of_findSome?_eq_some hd
    obtain ⟨hrounds, hexponent⟩ := onGrid_eq_some hgrid
    rw [gridExponents, List.mem_map] at hk
    obtain ⟨i, hi, hk⟩ := hk
    rw [List.mem_range] at hi
    rw [Option.getD_some, hexponent]
    exact .inr ⟨hrounds, by omega, by omega⟩

/-- The shortest decimal of a number. -/
theorem shortest_spec {m : Nat} {q : Int} (hm : m ≠ 0) :
    (shortest m q).value ≤ (m + 1 / 2) * 2 ^ q ∧
      ((shortest m q).digits = 0 → (shortest m q).exponent = 0) ∧
      -350 ≤ (shortest m q).exponent ∧ (shortest m q).exponent ≤ 309 := by
  rcases shortest_cases m q with h | ⟨hrounds, hlow, hhigh⟩
  · rw [h, Decimal.value]
    exact ⟨by simp; positivity, fun _ => rfl, by decide, by decide⟩
  · obtain ⟨hle, hne⟩ := roundsFrom_bounds hm hrounds
    exact ⟨hle, fun h => absurd h hne, hlow, hhigh⟩

theorem overflow_eq : overflow = ((18014398509481983 * 2 ^ 970 : Nat) : ℚ) := by
  rw [overflow, show (970 : Int) = ((970 : Nat) : Int) from rfl, zpow_natCast,
    Nat.cast_mul, Nat.cast_pow, Nat.cast_ofNat, Nat.cast_ofNat]
  congr 1
  norm_num

theorem ten_pow_lt_overflow : (10 : ℚ) ^ 308 < overflow ∧ overflow < 10 ^ 309 := by
  have hlow : (10 : Nat) ^ 308 < 18014398509481983 * 2 ^ 970 := by decide +kernel
  have hhigh : (18014398509481983 : Nat) * 2 ^ 970 < 10 ^ 309 := by decide +kernel
  rw [← Nat.cast_lt (α := ℚ), ← overflow_eq] at hlow hhigh
  rw [Nat.cast_pow, Nat.cast_ofNat] at hlow hhigh
  exact ⟨hlow, hhigh⟩

/-- The power of ten of the first digit of a decimal is not far from its exponent. -/
theorem digitChars_length_le {d : Decimal} (hlow : -350 ≤ d.exponent) (h : d.value ≤ overflow) :
    d.digitChars.length ≤ 659 := by
  have hten : (0 : ℚ) < 10 ^ (350 : Int) := zpow_pos (by norm_num) _
  have hscaled : (d.digits : ℚ) ≤ d.value * 10 ^ (350 : Int) := by
    rw [Decimal.value, mul_assoc, ← zpow_add₀ (by norm_num)]
    exact le_mul_of_one_le_right (Nat.cast_nonneg _) (one_le_zpow₀ (by norm_num) (by omega))
  have hdigits : (d.digits : ℚ) < 10 ^ 659 := calc
    (d.digits : ℚ) ≤ d.value * 10 ^ (350 : Int) := hscaled
    _ ≤ overflow * 10 ^ (350 : Int) := mul_le_mul_of_nonneg_right h hten.le
    _ < 10 ^ 309 * 10 ^ (350 : Int) := mul_lt_mul_of_pos_right ten_pow_lt_overflow.2 hten
    _ = 10 ^ 659 := by
      rw [show (350 : Int) = ((350 : Nat) : Int) from rfl, zpow_natCast, ← pow_add]
  have hwidth : ∀ k : Nat, 0 < k → (d.digits : ℚ) < 10 ^ k →
      (Nat.toDigits 10 d.digits).length ≤ k := by
    intro k hk hlt
    have hlt' : d.digits < 10 ^ k := by exact_mod_cast hlt
    exact (Nat.length_toDigits_le_iff (by decide) hk).mpr hlt'
  exact hwidth 659 (by decide) hdigits

theorem half_place_le_overflow {m : Nat} {q : Int} (hm : m < 2 ^ 53) (hq : q ≤ 971) :
    ((m : ℚ) + 1 / 2) * 2 ^ q ≤ overflow := by
  have hm' : ((m : ℚ) + 1 / 2) * 2 ≤ 2 ^ 54 - 1 := by
    have hle : m + 1 ≤ 2 ^ 53 := hm
    have hle' : (m : ℚ) + 1 ≤ 2 ^ 53 := by exact_mod_cast hle
    linarith
  calc ((m : ℚ) + 1 / 2) * 2 ^ q ≤ (m + 1 / 2) * 2 ^ (971 : Int) :=
        mul_le_mul_of_nonneg_left (two_zpow_le hq) (by positivity)
    _ = (m + 1 / 2) * 2 * 2 ^ (970 : Int) := by
        rw [show (971 : Int) = 1 + 970 from rfl, two_zpow_add, zpow_one, ← mul_assoc]
    _ ≤ overflow := mul_le_mul_of_nonneg_right hm' (two_zpow_pos _).le

/-- The significand and the place of a number. -/
theorem view_bounds {x : Binary64} {neg : Bool} {m : Nat} {q : Int} (h : x.view = .finite neg m q) :
    m < 2 ^ 53 ∧ q ≤ 971 := by
  simp only [view] at h
  split at h
  · split at h <;> cases h
  · split at h
    · cases h
      omega
    · cases h
      omega

end Binary64

end TypedTables
