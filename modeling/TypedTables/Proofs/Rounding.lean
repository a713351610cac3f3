import Mathlib.Algebra.Order.Field.Power
import Mathlib.Data.Rat.Lemmas
import Mathlib.Tactic.FieldSimp
import Mathlib.Tactic.Linarith
import Mathlib.Tactic.Positivity
import Mathlib.Tactic.Ring
import TypedTables.Number.Binary64

/-!
# What rounding answers

The number that a fraction is rounded to, as a rational: it lies between the same representable
numbers as the fraction, at most half a place away from it, and it is what the bits stand for unless
it is too large.
-/
namespace TypedTables.Binary64

/-! ### To the nearest integer -/

/-- Which integers the rounded quotient reaches: those whose lower half it is above, or at if they
are even. -/
theorem le_divEven_iff {num den k : Nat} (hden : 0 < den) :
    k ≤ divEven num den ↔
      2 * k * den < 2 * num + den ∨ 2 * k * den = 2 * num + den ∧ k % 2 = 0 := by
  have hsplit := Nat.div_add_mod num den
  have hrest := Nat.mod_lt num hden
  rw [divEven]
  generalize num / den = n at hsplit ⊢
  generalize num % den = r at hsplit hrest ⊢
  subst hsplit
  have hup : (2 * r > den || (2 * r == den && n % 2 == 1)) = true ↔ den < 2 * r ∨
      2 * r = den ∧ n % 2 = 1 := by
    simp
  simp only [hup]
  rcases Nat.lt_trichotomy k (n + 1) with h | rfl | h
  · have hmul : k * den ≤ den * n := by
      rw [Nat.mul_comm den n]
      exact Nat.mul_le_mul_right den (Nat.le_of_lt_succ h)
    rw [Nat.mul_assoc]
    split <;> omega
  · have hmul : (n + 1) * den = den * n + den := by ring
    rw [Nat.mul_assoc, hmul]
    split <;> omega
  · have hmul : den * n + 2 * den ≤ k * den := by
      have := Nat.mul_le_mul_right den (show n + 2 ≤ k from h)
      rw [Nat.add_mul, Nat.mul_comm n den] at this
      exact this
    rw [Nat.mul_assoc]
    split <;> omega

theorem le_divEven_iff_rat {num den k : Nat} (hden : 0 < den) :
    k ≤ divEven num den ↔
      (k : ℚ) - 1 / 2 < num / den ∨ (k : ℚ) - 1 / 2 = num / den ∧ k % 2 = 0 := by
  have hpos : (0 : ℚ) < den := by exact_mod_cast hden
  have hlt : (k : ℚ) - 1 / 2 < num / den ↔ 2 * k * den < 2 * num + den := by
    rw [lt_div_iff₀ hpos, ← Nat.cast_lt (α := ℚ)]
    push_cast
    constructor <;> intro h <;> linarith
  have heq : (k : ℚ) - 1 / 2 = num / den ↔ 2 * k * den = 2 * num + den := by
    rw [eq_div_iff hpos.ne', ← Nat.cast_inj (R := ℚ)]
    push_cast
    constructor <;> intro h <;> linarith
  rw [le_divEven_iff hden, hlt, heq]

theorem le_divEven {num den k : Nat} (hden : 0 < den) (h : (k : ℚ) ≤ num / den) :
    k ≤ divEven num den :=
  (le_divEven_iff_rat hden).mpr (.inl (by linarith))

theorem divEven_le {num den k : Nat} (hden : 0 < den) (h : (num : ℚ) / den ≤ k) :
    divEven num den ≤ k := by
  by_contra hlt
  rcases (le_divEven_iff_rat hden).mp (Nat.lt_of_not_le hlt) with h' | ⟨h', -⟩
  · push_cast at h'
    linarith
  · push_cast at h'
    linarith

/-- The rounded quotient is at most a half above the quotient. -/
theorem divEven_sub_le {num den : Nat} (hden : 0 < den) :
    (divEven num den : ℚ) - 1 / 2 ≤ num / den := by
  rcases (le_divEven_iff_rat hden).mp le_rfl with h | ⟨h, -⟩
  · exact h.le
  · exact h.le

/-! ### To the last place -/

theorem scaled_den_pos {den : Nat} (hden : 0 < den) (num : Nat) (q : Int) :
    0 < (scaled num den q).2 := by
  rw [scaled]
  split
  · exact Nat.mul_pos hden (Nat.two_pow_pos _)
  · exact hden

theorem scaled_eq (num den : Nat) (q : Int) :
    ((scaled num den q).1 : ℚ) / (scaled num den q).2 = (num : ℚ) / den / 2 ^ q := by
  rw [scaled]
  split
  next h =>
    obtain ⟨n, rfl⟩ := Int.eq_ofNat_of_zero_le h
    rw [Int.toNat_natCast, zpow_natCast, div_div]
    push_cast
    rfl
  next h =>
    obtain ⟨n, hn⟩ : ∃ n : Nat, q = -(n : Int) := ⟨(-q).toNat, by omega⟩
    subst hn
    rw [Int.neg_neg, Int.toNat_natCast, zpow_neg, zpow_natCast, div_inv_eq_mul]
    push_cast
    rw [mul_div_right_comm]

theorem two_zpow_pos (q : Int) : (0 : ℚ) < 2 ^ q := zpow_pos (by norm_num) q

theorem two_zpow_add (p q : Int) : (2 : ℚ) ^ (p + q) = 2 ^ p * 2 ^ q := zpow_add₀ (by norm_num) p q

theorem two_zpow_le {p q : Int} (h : p ≤ q) : (2 : ℚ) ^ p ≤ 2 ^ q :=
  zpow_le_zpow_right₀ (by norm_num) h

/-- A fraction lies within two binary places of the quotient of the powers of two below its
parts. -/
theorem log2_bounds {num den : Nat} (hnum : num ≠ 0) (hden : den ≠ 0) :
    (2 : ℚ) ^ ((num.log2 : Int) - den.log2 - 1) ≤ num / den ∧
      (num : ℚ) / den < 2 ^ ((num.log2 : Int) - den.log2 + 1) := by
  have hnumle : (2 : ℚ) ^ (num.log2 : Int) ≤ num := by
    rw [zpow_natCast]
    exact_mod_cast Nat.log2_self_le hnum
  have hnumlt : (num : ℚ) < 2 ^ ((num.log2 : Int) + 1) := by
    rw [← Nat.cast_succ, zpow_natCast]
    exact_mod_cast Nat.lt_log2_self
  have hdenle : (2 : ℚ) ^ (den.log2 : Int) ≤ den := by
    rw [zpow_natCast]
    exact_mod_cast Nat.log2_self_le hden
  have hdenlt : (den : ℚ) < 2 ^ ((den.log2 : Int) + 1) := by
    rw [← Nat.cast_succ, zpow_natCast]
    exact_mod_cast Nat.lt_log2_self
  have hpos : (0 : ℚ) < den := (two_zpow_pos _).trans_le hdenle
  constructor
  · rw [le_div_iff₀ hpos]
    calc (2 : ℚ) ^ ((num.log2 : Int) - den.log2 - 1) * den
        ≤ 2 ^ ((num.log2 : Int) - den.log2 - 1) * 2 ^ ((den.log2 : Int) + 1) :=
          mul_le_mul_of_nonneg_left hdenlt.le (two_zpow_pos _).le
      _ = 2 ^ (num.log2 : Int) := by rw [← two_zpow_add]; congr 1; omega
      _ ≤ num := hnumle
  · rw [div_lt_iff₀ hpos]
    calc (num : ℚ) < 2 ^ ((num.log2 : Int) + 1) := hnumlt
      _ = 2 ^ ((num.log2 : Int) - den.log2 + 1) * 2 ^ (den.log2 : Int) := by
          rw [← two_zpow_add]; congr 1; omega
      _ ≤ 2 ^ ((num.log2 : Int) - den.log2 + 1) * den :=
          mul_le_mul_of_nonneg_left hdenle (two_zpow_pos _).le

/-- The last place of a fraction is the one at which it has fifty-three binary digits, or the last
one there is. -/
theorem lastPlace_spec {num den : Nat} (hnum : num ≠ 0) (hden : den ≠ 0) :
    -1074 ≤ lastPlace num den ∧ (num : ℚ) / den < 2 ^ (53 + lastPlace num den) ∧
      (lastPlace num den = -1074 ∨ (2 : ℚ) ^ (52 + lastPlace num den) ≤ num / den) := by
  obtain ⟨hlow, hhigh⟩ := log2_bounds hnum hden
  set place : Int := Int.ofNat num.log2 - Int.ofNat den.log2 - 53 with hplace
  have hlow' : (2 : ℚ) ^ (52 + place) ≤ num / den := by
    convert hlow using 2
    simp only [Int.ofNat_eq_natCast] at hplace
    omega
  have hhigh' : (num : ℚ) / den < 2 ^ (54 + place) := by
    convert hhigh using 2
    simp only [Int.ofNat_eq_natCast] at hplace
    omega
  -- the place that the lengths suggest is right or one too small, which one test of the quotient
  -- decides
  have htest :
      (scaled num den place).1 / (scaled num den place).2 < 2 ^ 53 ↔
      (num : ℚ) / den < 2 ^ (53 + place) := by
    have hb := scaled_den_pos (Nat.pos_of_ne_zero hden) num place
    have hb' : (0 : ℚ) < (scaled num den place).2 := by exact_mod_cast hb
    rw [Nat.div_lt_iff_lt_mul hb, two_zpow_add, ← div_lt_iff₀ (two_zpow_pos place), ← scaled_eq,
      div_lt_iff₀ hb', ← Nat.cast_lt (α := ℚ)]
    push_cast
    norm_num
  have hlast :
      lastPlace num den = max (-1074) (if (num : ℚ) / den < 2 ^ (53 + place) then place
        else place + 1) := by
    rw [lastPlace, ← hplace]
    simp only [htest]
  have hmax : ∀ p : Int, (num : ℚ) / den < 2 ^ (53 + p) → (2 : ℚ) ^ (52 + p) ≤ num / den →
      -1074 ≤ max (-1074) p ∧ (num : ℚ) / den < 2 ^ (53 + max (-1074) p) ∧
        (max (-1074) p = -1074 ∨ (2 : ℚ) ^ (52 + max (-1074) p) ≤ num / den) := by
    intro p hlt hle
    refine ⟨le_max_left .., hlt.trans_le (two_zpow_le (by omega)), ?_⟩
    rcases max_choice (-1074) p with h | h
    · exact .inl h
    · rw [h]
      exact .inr hle
  rw [hlast]
  split
  next h => exact hmax place h hlow'
  next h =>
    refine hmax (place + 1) ?_ ?_
    · rwa [show 53 + (place + 1) = 54 + place by omega]
    · rw [show 52 + (place + 1) = 53 + place by omega]
      exact not_lt.mp h

/-- A fraction of fifty-three binary digits down to a place has this last place. -/
theorem lastPlace_eq {num den : Nat} {q : Int} (hden : den ≠ 0) (hq : -1074 < q)
    (hlow : (2 : ℚ) ^ (52 + q) ≤ num / den) (hhigh : (num : ℚ) / den < 2 ^ (53 + q)) :
    lastPlace num den = q := by
  have hnum : num ≠ 0 := by
    rintro rfl
    rw [Nat.cast_zero, zero_div] at hlow
    exact absurd hlow (not_le.mpr (two_zpow_pos _))
  obtain ⟨-, hhigh', hlow'⟩ := lastPlace_spec hnum hden
  have hle : 52 + q < 53 + lastPlace num den :=
    (zpow_lt_zpow_iff_right₀ (one_lt_two : (1 : ℚ) < 2)).mp (hlow.trans_lt hhigh')
  have hge : 52 + lastPlace num den < 53 + q :=
    (zpow_lt_zpow_iff_right₀ (one_lt_two : (1 : ℚ) < 2)).mp
      ((hlow'.resolve_left (by omega)).trans_lt hhigh)
  omega

/-- The number that a fraction is rounded to. -/
def nearest (num den : Nat) : ℚ :=
  let q := lastPlace num den
  divEven (scaled num den q).1 (scaled num den q).2 * 2 ^ q

theorem nearest_zero (den : Nat) : nearest 0 den = 0 := by
  have hscaled : ∀ q, (scaled 0 den q).1 = 0 := by
    intro q
    rw [scaled]
    split <;> simp
  have hdiv : ∀ b, divEven 0 b = 0 := by
    intro b
    simp [divEven]
  simp [nearest, hscaled, hdiv]

theorem nearest_nonneg (num den : Nat) : 0 ≤ nearest num den :=
  mul_nonneg (Nat.cast_nonneg _) (two_zpow_pos _).le

/-- Rounding keeps below a multiple of the last place. -/
theorem nearest_le_place {num den k : Nat} (hden : den ≠ 0)
    (h : (num : ℚ) / den ≤ k * 2 ^ lastPlace num den) :
    nearest num den ≤ k * 2 ^ lastPlace num den := by
  have hb := scaled_den_pos (Nat.pos_of_ne_zero hden) num (lastPlace num den)
  rw [← div_le_iff₀ (two_zpow_pos _), ← scaled_eq] at h
  have hk : (divEven (scaled num den (lastPlace num den)).1
      (scaled num den (lastPlace num den)).2 : ℚ) ≤ k := by
    exact_mod_cast divEven_le hb h
  exact mul_le_mul_of_nonneg_right hk (two_zpow_pos _).le

/-- Rounding keeps above a multiple of the last place. -/
theorem place_le_nearest {num den k : Nat} (hden : den ≠ 0)
    (h : (k : ℚ) * 2 ^ lastPlace num den ≤ num / den) :
    k * 2 ^ lastPlace num den ≤ nearest num den := by
  have hb := scaled_den_pos (Nat.pos_of_ne_zero hden) num (lastPlace num den)
  rw [← le_div_iff₀ (two_zpow_pos _), ← scaled_eq] at h
  have hk : (k : ℚ) ≤ divEven (scaled num den (lastPlace num den)).1
      (scaled num den (lastPlace num den)).2 := by
    exact_mod_cast le_divEven hb h
  exact mul_le_mul_of_nonneg_right hk (two_zpow_pos _).le

/-- Which multiples of the last place rounding reaches: those less than half a place above, and
those half a place above if they are even. -/
theorem place_le_nearest_iff {num den k : Nat} (hden : den ≠ 0) :
    k * 2 ^ lastPlace num den ≤ nearest num den ↔
      ((k : ℚ) - 1 / 2) * 2 ^ lastPlace num den < num / den ∨
        ((k : ℚ) - 1 / 2) * 2 ^ lastPlace num den = num / den ∧ k % 2 = 0 := by
  have hb := scaled_den_pos (Nat.pos_of_ne_zero hden) num (lastPlace num den)
  rw [← lt_div_iff₀ (two_zpow_pos _), ← eq_div_iff (two_zpow_pos _).ne', ← scaled_eq, ←
    le_divEven_iff_rat hb, nearest, mul_le_mul_iff_left₀ (two_zpow_pos _), Nat.cast_le]

/-- A multiple of a place is one of every place below. -/
theorem exists_place {k : Nat} {p q : Int} (h : q ≤ p) : ∃ n :
    Nat, (k : ℚ) * 2 ^ p = n * 2 ^ q := by
  obtain ⟨d, hd⟩ := Int.eq_ofNat_of_zero_le (Int.sub_nonneg_of_le h)
  refine ⟨k * 2 ^ d, ?_⟩
  rw [show p = d + q by omega, two_zpow_add, zpow_natCast]
  push_cast
  ring

/-- Above the last place there is a gap: a representable number of a coarser place has few
digits. -/
theorem le_of_lt_lastPlace {k : Nat} {p q : Int} (hk : k ≤ 2 ^ 53) (hpq : p < q) :
    (k : ℚ) * 2 ^ p ≤ (2 ^ 52 : Nat) * 2 ^ q := by
  have hk' : (k : ℚ) ≤ 2 ^ (53 : Int) := by
    rw [show (53 : Int) = ((53 : Nat) : Int) from rfl, zpow_natCast]
    exact_mod_cast hk
  calc (k : ℚ) * 2 ^ p ≤ 2 ^ (53 : Int) * 2 ^ p :=
    mul_le_mul_of_nonneg_right hk' (two_zpow_pos p).le
    _ = 2 ^ (53 + p) := (two_zpow_add ..).symm
    _ ≤ 2 ^ (52 + q) := two_zpow_le (by omega)
    _ = (2 ^ 52 : Nat) * 2 ^ q := by rw [two_zpow_add]; norm_num

/-- A representable number that is not below the fraction is not below what it is rounded to. -/
theorem nearest_le {num den k : Nat} {p : Int} (hden : den ≠ 0) (hk : k ≤ 2 ^ 53) (hp : -1074 ≤ p)
    (h : (num : ℚ) / den ≤ k * 2 ^ p) : nearest num den ≤ k * 2 ^ p := by
  rcases eq_or_ne num 0 with rfl | hnum
  · rw [nearest_zero]
    positivity
  obtain ⟨-, -, hlast⟩ := lastPlace_spec hnum hden
  rcases le_or_gt (lastPlace num den) p with hle | hlt
  · obtain ⟨n, hn⟩ := exists_place (k := k) hle
    rw [hn] at h ⊢
    exact nearest_le_place hden h
  · have hlow : ((2 ^ 52 : Nat) : ℚ) * 2 ^ lastPlace num den ≤ num / den := by
      rw [two_zpow_add] at hlast
      push_cast
      exact hlast.resolve_left (by omega)
    have hgap := le_of_lt_lastPlace hk hlt
    exact (nearest_le_place hden (h.trans hgap)).trans (hlow.trans h)

/-- A representable number that is not above the fraction is not above what it is rounded to. -/
theorem le_nearest {num den k : Nat} {p : Int} (hden : den ≠ 0) (hk : k ≤ 2 ^ 53) (hp : -1074 ≤ p)
    (h : (k : ℚ) * 2 ^ p ≤ num / den) : k * 2 ^ p ≤ nearest num den := by
  rcases eq_or_ne num 0 with rfl | hnum
  · rw [nearest_zero]
    simpa using h
  obtain ⟨-, -, hlast⟩ := lastPlace_spec hnum hden
  rcases le_or_gt (lastPlace num den) p with hle | hlt
  · obtain ⟨n, hn⟩ := exists_place (k := k) hle
    rw [hn] at h ⊢
    exact place_le_nearest hden h
  · have hlow : ((2 ^ 52 : Nat) : ℚ) * 2 ^ lastPlace num den ≤ num / den := by
      rw [two_zpow_add] at hlast
      push_cast
      exact hlast.resolve_left (by omega)
    exact (le_of_lt_lastPlace hk hlt).trans (place_le_nearest hden hlow)

/-! ### The bits -/

theorem view_ofFields (neg : Bool) {exponent fraction : Nat} (he : exponent < 2048)
    (hf : fraction < 2 ^ 52) : (ofFields neg exponent fraction).view =
      if exponent = 2047 then (if fraction = 0 then .infinite neg else .nan)
      else if exponent = 0 then .finite neg fraction (-1074)
      else .finite neg (2 ^ 52 + fraction) ((exponent : Int) - 1075) := by
  have hbits : (ofFields neg exponent fraction).bits.toNat =
      (if neg then 2 ^ 63 else 0) + exponent * 2 ^ 52 + fraction := by
    rw [ofFields, UInt64.toNat_ofNat']
    refine Nat.mod_eq_of_lt ?_
    split <;> omega
  have hneg : ((ofFields neg exponent fraction).bits.toNat / 2 ^ 63 == 1) = neg := by
    rw [hbits]
    cases neg
    · rw [beq_eq_false_iff_ne, if_neg Bool.false_ne_true]
      omega
    · rw [beq_iff_eq, if_pos rfl]
      omega
  have hexponent : (ofFields neg exponent fraction).bits.toNat / 2 ^ 52 % 2048 = exponent := by
    rw [hbits]
    split <;> omega
  have hfraction : (ofFields neg exponent fraction).bits.toNat % 2 ^ 52 = fraction := by
    rw [hbits]
    split <;> omega
  simp only [view, hneg, hexponent, hfraction]

theorem view_zero (neg : Bool) : (zero neg).view = .finite neg 0 (-1074) :=
  view_ofFields neg (by decide) (by decide)

theorem view_infinity (neg : Bool) : (infinity neg).view = .infinite neg :=
  view_ofFields neg (by decide) (by decide)

/-- The bits of a significand at a place. -/
theorem view_place (neg : Bool) {m : Nat} {q : Int} (hm : m < 2 ^ 53)
    (hq : q = -1074 ∨ -1074 ≤ q ∧ 2 ^ 52 ≤ m) :
    (if m < 2 ^ 52 then ofFields neg 0 m
      else if q + 1075 ≥ 2047 then infinity neg
      else ofFields neg (q + 1075).toNat (m - 2 ^ 52)).view =
    if q ≤ 971 then .finite neg m q else .infinite neg := by
  by_cases hsmall : m < 2 ^ 52
  · have hplace : q = -1074 := by omega
    rw [if_pos hsmall, view_ofFields neg (by decide) hsmall, if_neg (by decide), if_pos rfl, hplace]
    rfl
  by_cases hlarge : q + 1075 ≥ 2047
  · rw [if_neg hsmall, if_pos hlarge, view_infinity, if_neg (by omega)]
  · have hsum : 2 ^ 52 + (m - 2 ^ 52) = m := by omega
    have hexponent : ((q + 1075).toNat : Int) - 1075 = q := by omega
    rw [if_neg hsmall, if_neg hlarge, view_ofFields neg (by omega) (by omega), if_neg (by omega),
      if_neg (by omega), if_pos (by omega), hsum, hexponent]

/-- The bits that a fraction is rounded to: significand and place of the number it is rounded to,
unless the place is beyond the last exponent. -/
theorem view_ofRatio (neg : Bool) {num den : Nat} (hnum : num ≠ 0) (hden : den ≠ 0) :
    ∃ (m : Nat) (q : Int), m < 2 ^ 53 ∧ (q = -1074 ∨ -1074 ≤ q ∧ 2 ^ 52 ≤ m) ∧
      (m : ℚ) * 2 ^ q = nearest num den ∧
      (ofRatio neg num den).view = if q ≤ 971 then .finite neg m q else .infinite neg := by
  obtain ⟨hleast, hhigh, hlow⟩ := lastPlace_spec hnum hden
  have hb := scaled_den_pos (Nat.pos_of_ne_zero hden) num (lastPlace num den)
  have hnearest : nearest num den = divEven (scaled num den (lastPlace num den)).1
    (scaled num den (lastPlace num den)).2 * 2 ^ lastPlace num den := rfl
  have hscaled := scaled_eq num den (lastPlace num den)
  have hmle : divEven (scaled num den (lastPlace num den)).1
      (scaled num den (lastPlace num den)).2 ≤ 2 ^ 53 := by
    refine divEven_le hb ?_
    rw [hscaled, div_le_iff₀ (two_zpow_pos _)]
    rw [two_zpow_add] at hhigh
    push_cast
    exact hhigh.le
  have hlem : lastPlace num den = -1074 ∨
      2 ^ 52 ≤ divEven (scaled num den (lastPlace num den)).1
        (scaled num den (lastPlace num den)).2 := by
    refine hlow.imp_right fun hlow => le_divEven hb ?_
    rw [hscaled, le_div_iff₀ (two_zpow_pos _)]
    rw [two_zpow_add] at hlow
    push_cast
    exact hlow
  rw [ofRatio, if_neg hnum, hnearest]
  dsimp only
  generalize divEven (scaled num den (lastPlace num den)).1 (scaled num den (lastPlace num den)).2 =
    m at *
  generalize lastPlace num den = q at *
  -- a significand that was rounded up to the next power of two moves the place
  by_cases hcarry : m = 2 ^ 53
  · rw [if_pos hcarry]
    have hplace : q + 1 = -1074 ∨ -1074 ≤ q + 1 ∧ (2 : Nat) ^ 52 ≤ 2 ^ 52 := .inr ⟨by omega, le_rfl⟩
    refine ⟨2 ^ 52,
      q + 1, by decide, hplace, ?_, view_place neg (show 2 ^ 52 < 2 ^ 53 by decide) hplace⟩
    rw [hcarry, two_zpow_add]
    push_cast
    ring
  · have hm : m < 2 ^ 53 := Nat.lt_of_le_of_ne hmle hcarry
    have hq : q = -1074 ∨ -1074 ≤ q ∧ 2 ^ 52 ≤ m := hlem.imp_right fun h => ⟨hleast, h⟩
    rw [if_neg hcarry]
    exact ⟨m, q, hm, hq, rfl, view_place neg hm hq⟩

end TypedTables.Binary64
