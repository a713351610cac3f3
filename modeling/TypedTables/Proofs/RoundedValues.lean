import Mathlib.Data.Rat.Floor
import TypedTables.Proofs.Rounding

/-!
# The values of numbers and what operations make of them

The value of a finite number is a rational. The result of an operation lies between the same
representable rationals as the exact result, and it is finite unless that is too large.
-/
namespace TypedTables.Binary64

def View.value : View → ℚ
  | .finite neg m q => (if neg then -1 else 1) * (m * 2 ^ q)
  | _ => 0

def value (x : Binary64) : ℚ := x.view.value

/-- A rational that fits fifty-three binary digits and the least exponent. -/
def Representable (y : ℚ) : Prop := ∃ (k : Nat) (p : Int), k ≤ 2 ^ 53 ∧ -1074 ≤ p ∧ |y| = k * 2 ^ p

namespace Representable

theorem neg {y : ℚ} (h : Representable y) : Representable (-y) := by
  rwa [Representable, abs_neg]

theorem of_int {i : Int} (h : i.natAbs ≤ 2 ^ 53) : Representable i := by
  refine ⟨i.natAbs, 0, h, by decide, ?_⟩
  rw [zpow_zero, mul_one, ← Int.cast_abs, Int.abs_eq_natAbs, Int.cast_natCast]

end Representable

structure Rounds (v : ℚ) (x : Binary64) : Prop where
  finite : x.isFinite = true
  le : ∀ y, Representable y → v ≤ y → x.value ≤ y
  ge : ∀ y, Representable y → y ≤ v → y ≤ x.value

/-- The middle between the largest number and the next power of two. From it on a rational is
rounded to infinity. -/
def overflow : ℚ := (2 ^ 54 - 1) * 2 ^ (970 : Int)

/-- What lies below is rounded to a number. -/
theorem nearest_lt {num den : Nat} (hden : den ≠ 0) (h : (num : ℚ) / den < overflow) :
    nearest num den < 2 ^ (1024 : Int) := by
  rcases eq_or_ne num 0 with rfl | hnum
  · rw [nearest_zero]
    exact two_zpow_pos _
  obtain ⟨hleast, hhigh, hlow⟩ := lastPlace_spec hnum hden
  have htop : overflow < 2 ^ (1024 : Int) := by
    rw [overflow, show (1024 : Int) = ((54 : Nat) : Int) + 970 by rfl, two_zpow_add, zpow_natCast]
    exact mul_lt_mul_of_pos_right (by norm_num) (two_zpow_pos _)
  have hplace : lastPlace num den ≤ 971 := by
    by_contra hlt
    have hle := hlow.resolve_left (by omega)
    have hbeyond : (2 : ℚ) ^ (1024 : Int) ≤ 2 ^ (52 + lastPlace num den) := two_zpow_le (by omega)
    exact absurd (hbeyond.trans hle) (not_le.mpr (h.trans htop))
  -- at the greatest place the significand could still be rounded up to the bound; the middle
  -- excludes that
  rcases Int.lt_or_eq_of_le hplace with hlt | heq
  · have hle : nearest num den ≤ (2 ^ 53 : Nat) * 2 ^ lastPlace num den := by
      refine nearest_le_place hden ?_
      rw [two_zpow_add] at hhigh
      push_cast
      exact hhigh.le
    calc nearest num den ≤ (2 ^ 53 : Nat) * 2 ^ lastPlace num den := hle
      _ = 2 ^ (53 + lastPlace num den) := by rw [two_zpow_add]; norm_num
      _ < 2 ^ (1024 : Int) := zpow_lt_zpow_right₀ (by norm_num) (by omega)
  · have hb := scaled_den_pos (Nat.pos_of_ne_zero hden) num (lastPlace num den)
    have hscaled := scaled_eq num den (lastPlace num den)
    have hbelow :
        divEven (scaled num den (lastPlace num den)).1 (scaled num den (lastPlace num den)).2 <
          2 ^ 53 := by
      have hquotient : (num : ℚ) / den / 2 ^ lastPlace num den < (2 ^ 53 : Nat) - 1 / 2 := by
        have hdouble : ∀ t : ℚ, (2 ^ 54 - 1) * t = ((2 ^ 53 : Nat) - 1 / 2) * (2 * t) := by
          intro t
          push_cast
          ring
        rw [div_lt_iff₀ (two_zpow_pos _), heq, show (971 : Int) = 1 + 970 from rfl,
          two_zpow_add, zpow_one, ← hdouble]
        exact h
      by_contra hge
      rcases (le_divEven_iff_rat hb).mp (not_lt.mp hge) with h' | ⟨h', -⟩
      · linarith
      · linarith
    calc nearest num den < (2 ^ 53 : Nat) * 2 ^ lastPlace num den :=
          mul_lt_mul_of_pos_right (by exact_mod_cast hbelow) (two_zpow_pos _)
      _ = 2 ^ (1024 : Int) := by
        rw [heq, show (1024 : Int) = ((53 : Nat) : Int) + 971 from rfl, two_zpow_add, zpow_natCast,
          Nat.cast_pow, Nat.cast_ofNat]

theorem ofRatio_value (neg : Bool) {num den : Nat} (hden : den ≠ 0)
    (h : nearest num den < 2 ^ (1024 : Int)) : (ofRatio neg num den).isFinite = true ∧
      (ofRatio neg num den).value = (if neg then -1 else 1) * nearest num den := by
  rcases eq_or_ne num 0 with rfl | hnum
  · have hzero : ofRatio neg 0 den = zero neg := if_pos rfl
    rw [hzero, isFinite, value, view_zero, nearest_zero]
    simp [View.value]
  · obtain ⟨m, q, hm, hq, hvalue, hview⟩ := view_ofRatio neg hnum hden
    have hplace : q ≤ 971 := by
      by_contra hlt
      have hle : (2 : ℚ) ^ (1024 : Int) ≤ nearest num den := by
        have hm' : (2 : ℚ) ^ (52 : Int) ≤ m := by
          rw [show (52 : Int) = ((52 : Nat) : Int) from rfl, zpow_natCast]
          exact_mod_cast (hq.resolve_left (by omega)).2
        calc (2 : ℚ) ^ (1024 : Int) ≤ 2 ^ (52 + q) := two_zpow_le (by omega)
          _ = 2 ^ (52 : Int) * 2 ^ q := two_zpow_add ..
          _ ≤ m * 2 ^ q := mul_le_mul_of_nonneg_right hm' (two_zpow_pos q).le
          _ = nearest num den := hvalue
      exact absurd h (not_lt.mpr hle)
    rw [if_pos hplace] at hview
    rw [isFinite, value, hview, View.value, hvalue]
    exact ⟨rfl, rfl⟩

/-- A fraction with a sign is rounded to a number unless it is too large. -/
theorem rounds_ofRatio (neg : Bool) {num den : Nat} (hden : den ≠ 0)
    (h : (num : ℚ) / den < overflow) :
    Rounds ((if neg then -1 else 1) * (num / den)) (ofRatio neg num den) := by
  obtain ⟨hfinite, hvalue⟩ := ofRatio_value neg hden (nearest_lt hden h)
  have hnonneg := nearest_nonneg num den
  have hupper : ∀ y, Representable y → (num : ℚ) / den ≤ y → nearest num den ≤ y := by
    rintro y ⟨k, p, hk, hp, hy⟩ hle
    have hpos : 0 ≤ y := le_trans (by positivity) hle
    rw [abs_of_nonneg hpos] at hy
    rw [hy] at hle ⊢
    exact nearest_le hden hk hp hle
  have hlower : ∀ y, Representable y → y ≤ (num : ℚ) / den → y ≤ nearest num den := by
    rintro y ⟨k, p, hk, hp, hy⟩ hle
    rcases le_total y 0 with hneg | hpos
    · exact hneg.trans hnonneg
    · rw [abs_of_nonneg hpos] at hy
      rw [hy] at hle ⊢
      exact le_nearest hden hk hp hle
  cases neg with
  | false =>
    rw [if_neg Bool.false_ne_true, one_mul] at hvalue ⊢
    exact ⟨hfinite, fun y hy hle => hvalue ▸ hupper y hy hle,
      fun y hy hle => hvalue ▸ hlower y hy hle⟩
  | true =>
    rw [if_pos rfl, neg_one_mul] at hvalue ⊢
    refine ⟨hfinite, fun y hy hle => ?_, fun y hy hle => ?_⟩
    · rw [hvalue, neg_le]
      exact hlower _ hy.neg (neg_le.mp hle)
    · rw [hvalue, le_neg]
      exact hupper _ hy.neg (le_neg.mp hle)

/-- A fraction is rounded to a number unless it is too large. -/
theorem rounds_ofRational {num : Int} {den : Nat} (hden : den ≠ 0)
    (h : |(num : ℚ) / den| < overflow) :
    Rounds (num / den) (ofRational num den) := by
  have hmagnitude : |(num : ℚ) / den| = (num.natAbs : ℚ) / den := by
    rw [abs_div, Nat.abs_cast, Nat.cast_natAbs, Int.cast_abs]
  have hsign : (num : ℚ) / den = (if decide (num < 0) then -1 else 1) *
      ((num.natAbs : ℚ) / den) := by
    rw [Nat.cast_natAbs]
    rcases lt_or_ge num 0 with hneg | hpos
    · rw [abs_of_neg hneg, decide_eq_true hneg, if_pos rfl]
      push_cast
      ring
    · rw [abs_of_nonneg hpos, decide_eq_false (not_lt.mpr hpos), if_neg Bool.false_ne_true, one_mul]
  rw [hmagnitude] at h
  rw [hsign]
  exact rounds_ofRatio _ hden h

theorem ratio_den_ne_zero (neg : Bool) (m : Nat) (q : Int) : (ratio neg m q).2 ≠ 0 :=
  (scaled_den_pos Nat.one_pos m (-q)).ne'

theorem ratio_eq (neg : Bool) (m : Nat) (q : Int) :
    ((ratio neg m q).1 : ℚ) / (ratio neg m q).2 = (View.finite neg m q).value := by
  have hscaled := scaled_eq m 1 (-q)
  rw [Nat.cast_one, div_one, zpow_neg, div_inv_eq_mul] at hscaled
  rw [View.value, ← hscaled, ratio]
  cases neg
  · simp
  · simp [neg_div]

theorem exists_view {x : Binary64} (h : x.isFinite = true) :
    ∃ neg m q, x.view = .finite neg m q := by
  rw [isFinite] at h
  split at h
  next neg m q hview => exact ⟨neg, m, q, hview⟩
  · cases h

/-- An integer is rounded like the fraction it is. -/
theorem rounds_ofInt {i : Int} (h : |(i : ℚ)| < overflow) : Rounds i (ofInt i) := by
  have hone : (i : ℚ) = i / (1 : Nat) := by simp
  rw [hone] at h ⊢
  exact rounds_ofRational Nat.one_ne_zero h

theorem Rounds.value_eq {v : ℚ} {x : Binary64} (h : Rounds v x) (hv : Representable v) :
    x.value = v :=
  le_antisymm (h.le v hv le_rfl) (h.ge v hv le_rfl)

/-- The exact sum is a fraction, and the sum is what this is rounded to. -/
theorem exists_add {x y : Binary64} (hx : x.isFinite = true) (hy : y.isFinite = true) :
    ∃ (num : Int) (den : Nat) (neg : Bool), den ≠ 0 ∧ x.value + y.value = num / den ∧
      x.add y = if num = 0 then zero neg else ofRational num den := by
  obtain ⟨a, m, p, hxview⟩ := exists_view hx
  obtain ⟨b, n, q, hyview⟩ := exists_view hy
  have hu := ratio_eq a m p
  have hs := ratio_eq b n q
  have hv0 := ratio_den_ne_zero a m p
  have ht0 := ratio_den_ne_zero b n q
  have hadd : x.add y =
      let r := ratio a m p
      let r' := ratio b n q
      if r.1 * r'.2 + r'.1 * r.2 = 0 then zero (a && b)
      else ofRational (r.1 * r'.2 + r'.1 * r.2) (r.2 * r'.2) := by
    rw [add, hxview, hyview]
  rw [hadd, value, value, hxview, hyview, ← hu, ← hs]
  generalize ratio a m p = r at hv0
  generalize ratio b n q = r' at ht0
  obtain ⟨u, v⟩ := r
  obtain ⟨s, t⟩ := r'
  refine ⟨u * t + s * v, v * t, a && b, Nat.mul_ne_zero hv0 ht0, ?_, rfl⟩
  have hv : (v : ℚ) ≠ 0 := by exact_mod_cast hv0
  have ht : (t : ℚ) ≠ 0 := by exact_mod_cast ht0
  push_cast
  field_simp

/-- The sum of two numbers is their exact sum, rounded. -/
theorem rounds_add {x y : Binary64} (hx : x.isFinite = true) (hy : y.isFinite = true)
    (h : |x.value + y.value| < overflow) : Rounds (x.value + y.value) (x.add y) := by
  obtain ⟨num, den, neg, hden, hsum, hadd⟩ := exists_add hx hy
  rw [hsum] at h ⊢
  rw [hadd]
  split
  next hzero =>
    have hvalue : ∀ neg, (zero neg).value = 0 := fun neg => by simp [value, view_zero, View.value]
    rw [hzero, Int.cast_zero, zero_div]
    exact ⟨by rw [isFinite, view_zero], fun y _ hle => by rwa [hvalue],
      fun y _ hle => by rwa [hvalue]⟩
  next => exact rounds_ofRational hden h

/-- A positive sum is the number that a fraction of its value is rounded to. -/
theorem add_value_of_pos {x y : Binary64} (hx : x.isFinite = true) (hy : y.isFinite = true)
    (hpos : 0 < x.value + y.value) (h : x.value + y.value < overflow) :
    ∃ num den : Nat, den ≠ 0 ∧ (num : ℚ) / den = x.value + y.value ∧
    (x.add y).value = nearest num den := by
  obtain ⟨num, den, neg, hden, hsum, hadd⟩ := exists_add hx hy
  have hden' : (0 : ℚ) < den := by exact_mod_cast Nat.pos_of_ne_zero hden
  have hnum : 0 < num := by
    rw [hsum, div_pos_iff_of_pos_right hden'] at hpos
    exact_mod_cast hpos
  obtain ⟨n, rfl⟩ := Int.eq_ofNat_of_zero_le hnum.le
  rw [Int.cast_natCast] at hsum
  refine ⟨n, den, hden, hsum.symm, ?_⟩
  rw [hsum] at h
  rw [hadd, if_neg hnum.ne', ofRational, decide_eq_false (not_lt.mpr hnum.le), Int.natAbs_natCast,
    (ofRatio_value false hden (nearest_lt hden h)).2, if_neg Bool.false_ne_true, one_mul]

theorem sign_mul (a b : Bool) :
    ((if a != b then -1 else 1 : ℚ)) = (if a then -1 else 1) * (if b then -1 else 1) := by
  cases a <;> cases b <;> norm_num

theorem natAbs_ratio (m : Nat) (q : Int) :
    ((ratio false m q).1.natAbs : ℚ) / (ratio false m q).2 = m * 2 ^ q := by
  have hvalue := ratio_eq false m q
  have hnonneg : 0 ≤ (ratio false m q).1 := by
    rw [ratio]
    exact Int.natCast_nonneg _
  rw [View.value, if_neg Bool.false_ne_true, one_mul] at hvalue
  rw [← hvalue, Nat.cast_natAbs, abs_of_nonneg hnonneg]

/-- The product of two numbers is their exact product, rounded. -/
theorem rounds_mul {x y : Binary64} (hx : x.isFinite = true) (hy : y.isFinite = true)
    (h : |x.value * y.value| < overflow) : Rounds (x.value * y.value) (x.mul y) := by
  obtain ⟨a, m, p, hxview⟩ := exists_view hx
  obtain ⟨b, n, q, hyview⟩ := exists_view hy
  have hu := natAbs_ratio m p
  have hs := natAbs_ratio n q
  have hv0 := ratio_den_ne_zero false m p
  have ht0 := ratio_den_ne_zero false n q
  have hproduct : x.value * y.value = (if a != b then -1 else 1) * (m * 2 ^ p * (n * 2 ^ q)) := by
    rw [value, value, hxview, hyview, View.value, View.value, sign_mul]
    ring
  have hmagnitude : |x.value * y.value| = m * 2 ^ p * (n * 2 ^ q) := by
    rw [hproduct, abs_mul, abs_of_nonneg (show (0 : ℚ) ≤ m * 2 ^ p * (n * 2 ^ q) by positivity)]
    split <;> simp
  rw [hmagnitude] at h
  rw [hproduct, mul, hxview, hyview]
  dsimp only
  rw [← hu, ← hs, div_mul_div_comm] at h ⊢
  rw [← Nat.cast_mul, ← Nat.cast_mul] at h ⊢
  exact rounds_ofRatio (a != b) (Nat.mul_ne_zero hv0 ht0) h

/-- The quotient of two numbers is their exact quotient, rounded. -/
theorem rounds_div {x y : Binary64} (hx : x.isFinite = true) (hy : y.isFinite = true)
    (hzero : y.value ≠ 0) (h : |x.value / y.value| < overflow) :
    Rounds (x.value / y.value) (x.div y) := by
  obtain ⟨a, m, p, hxview⟩ := exists_view hx
  obtain ⟨b, n, q, hyview⟩ := exists_view hy
  have hn : n ≠ 0 := by
    rintro rfl
    refine hzero ?_
    rw [value, hyview, View.value]
    simp
  have hu := natAbs_ratio m p
  have hs := natAbs_ratio n q
  have hv0 := ratio_den_ne_zero false m p
  have ht0 := ratio_den_ne_zero false n q
  have hquotient : x.value / y.value = (if a != b then -1 else 1) * (m * 2 ^ p / (n * 2 ^ q)) := by
    rw [value, value, hxview, hyview, View.value, View.value]
    cases a <;> cases b <;> simp [neg_div, div_neg]
  have hmagnitude : |x.value / y.value| = m * 2 ^ p / (n * 2 ^ q) := by
    rw [hquotient, abs_mul, abs_of_nonneg (show (0 : ℚ) ≤ m * 2 ^ p / (n * 2 ^ q) by positivity)]
    split <;> simp
  have hs0 : (ratio false n q).1.natAbs ≠ 0 := by
    intro hzero
    rw [hzero, Nat.cast_zero, zero_div] at hs
    have : (0 : ℚ) < n * 2 ^ q := mul_pos (by exact_mod_cast Nat.pos_of_ne_zero hn) (two_zpow_pos q)
    exact absurd hs this.ne
  rw [hmagnitude] at h
  rw [hquotient, div, hxview, hyview]
  dsimp only
  rw [if_neg hn]
  rw [← hu, ← hs, div_div_div_eq, ← Nat.cast_mul, ← Nat.cast_mul] at h ⊢
  exact rounds_ofRatio (a != b) (Nat.mul_ne_zero hv0 hs0) h

/-! ### Integers -/

theorem lt_overflow {v : ℚ} (h : v ≤ 2 ^ (1023 : Int)) : v < overflow := by
  refine h.trans_lt ?_
  rw [overflow, show (1023 : Int) = ((53 : Nat) : Int) + 970 from rfl, two_zpow_add, zpow_natCast]
  exact mul_lt_mul_of_pos_right (by norm_num) (two_zpow_pos _)

theorem lt_overflow_of_le {v : ℚ} {n : Nat} (hn : n ≤ 1023) (h : v ≤ 2 ^ n) : v < overflow := by
  refine lt_overflow (h.trans ?_)
  rw [← zpow_natCast]
  exact two_zpow_le (by exact_mod_cast hn)

/-- An integer of fifty-three binary digits is the number of its value. -/
theorem ofInt_value {i : Int} (h : i.natAbs ≤ 2 ^ 53) :
    (ofInt i).isFinite = true ∧ (ofInt i).value = i := by
  have hmagnitude : |(i : ℚ)| ≤ 2 ^ 53 := by
    rw [← Int.cast_abs, Int.abs_eq_natAbs, Int.cast_natCast]
    exact_mod_cast h
  have hrounds := rounds_ofInt (lt_overflow_of_le (by decide) hmagnitude)
  exact ⟨hrounds.finite, hrounds.value_eq (.of_int h)⟩

/-- The greatest integer that is not above a number. -/
theorem floor_value {x : Binary64} (hx : x.isFinite = true) (h : ⌊x.value⌋.natAbs ≤ 2 ^ 53) :
    x.floor.isFinite = true ∧ x.floor.value = ⌊x.value⌋ := by
  obtain ⟨a, m, q, hview⟩ := exists_view hx
  have hquotient : (ratio a m q).1 / ((ratio a m q).2 : Int) = ⌊x.value⌋ := by
    rw [value, hview, ← ratio_eq, Rat.floor_intCast_div_natCast]
  simp only [floor, hview, hquotient]
  split
  next hzero =>
    rw [isFinite, value, view_zero, hzero]
    simp [View.value]
  next => exact ofInt_value h

/-- A number that is an integer is taken as this integer, if it lies in the range. -/
theorem toIntWithin_eq {x : Binary64} (hx : x.isFinite = true) {n lo hi : Int}
    (hvalue : x.value = n) (hlo : lo ≤ n) (hhi : n ≤ hi) : x.toIntWithin lo hi = n := by
  obtain ⟨a, m, q, hview⟩ := exists_view hx
  have hmagnitude := ratio_eq false m q
  have hquotient : ∀ k : Int, (m : ℚ) * 2 ^ q = k →
      (ratio false m q).1 / ((ratio false m q).2 : Int) = k := by
    intro k hk
    rw [← Rat.floor_intCast_div_natCast, ratio_eq, View.value,
      if_neg Bool.false_ne_true, one_mul, hk, Int.floor_intCast]
  rw [value, hview, View.value] at hvalue
  simp only [toIntWithin, hview]
  cases a with
  | false =>
    rw [if_neg Bool.false_ne_true, one_mul] at hvalue
    rw [hquotient n hvalue, if_neg Bool.false_ne_true, min_eq_right hhi, max_eq_right hlo]
  | true =>
    rw [if_pos rfl, neg_one_mul] at hvalue
    have hneg : (m : ℚ) * 2 ^ q = ((-n : Int) : ℚ) := by
      push_cast
      linarith
    rw [hquotient (-n) hneg, if_pos rfl, Int.neg_neg, min_eq_right hhi, max_eq_right hlo]

end TypedTables.Binary64
