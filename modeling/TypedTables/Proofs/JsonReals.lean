import TypedTables.Proofs.JsonNumbers
import TypedTables.Proofs.ShortestDecimals

/-!
# JSON texts of floating point numbers

What a reader makes of the text of a floating point number is finite, although it may keep fewer
digits than are written and rounds twice.
-/
namespace TypedTables.Json

open Binary64

/-! ### Two roundings -/

/-- Rounding adds at most one part in `2 ^ 53`. -/
theorem nearest_le_relative {num den : Nat} (hden : den ≠ 0) (h : 1 ≤ (num : ℚ) / den) :
    nearest num den ≤ num / den * (1 + 1 / 2 ^ 53) := by
  have hnum : num ≠ 0 := by
    rintro rfl
    norm_num at h
  obtain ⟨-, hhigh, hlow⟩ := lastPlace_spec hnum hden
  have hb := scaled_den_pos (Nat.pos_of_ne_zero hden) num (lastPlace num den)
  have hplace : lastPlace num den ≠ -1074 := by
    intro hplace
    rw [hplace] at hhigh
    have hsmall : (2 : ℚ) ^ (53 + -1074 : Int) ≤ 2 ^ (0 : Int) := two_zpow_le (by decide)
    rw [zpow_zero] at hsmall
    exact absurd (hhigh.trans_le hsmall) (not_lt.mpr h)
  have hlow := hlow.resolve_left hplace
  have hrounded := @divEven_sub_le (scaled num den (lastPlace num den)).1 _ hb
  rw [scaled_eq, le_div_iff₀ (two_zpow_pos _), sub_mul] at hrounded
  rw [two_zpow_add, show (52 : Int) = ((52 : Nat) : Int) from rfl, zpow_natCast] at hlow
  rw [nearest]
  have hhalf : (1 : ℚ) / 2 * 2 ^ lastPlace num den ≤ num / den * (1 / 2 ^ 53) := by
    linarith
  linarith

/-- The integers up to this one, multiplied by powers of ten, stay finite when both factors and
their product are rounded. -/
def safe : ℚ := (2 ^ 54 - 5) * 2 ^ (970 : Int)

theorem safe_lt_overflow : safe < overflow :=
  mul_lt_mul_of_pos_right (by norm_num) (two_zpow_pos _)

theorem safe_rounded_lt_overflow : safe * (1 + 1 / 2 ^ 53) * (1 + 1 / 2 ^ 53) < overflow := by
  rw [safe, overflow, mul_right_comm, mul_right_comm (2 ^ 54 - 5 : ℚ), mul_right_comm]
  exact mul_lt_mul_of_pos_right (by norm_num) (two_zpow_pos _)

theorem ofInt_natCast {n : Nat} (hn : n ≠ 0) (h : (n : ℚ) < overflow) :
    (ofInt n).isFinite = true ∧ 1 ≤ (ofInt n).value ∧ (ofInt n).value ≤ n * (1 + 1 / 2 ^ 53) := by
  have hone : (1 : ℚ) ≤ n := by exact_mod_cast Nat.pos_of_ne_zero hn
  have hwhole : (n : ℚ) / (1 : Nat) = n := by rw [Nat.cast_one, div_one]
  have hlt := nearest_lt Nat.one_ne_zero (hwhole.symm ▸ h)
  have hofInt : ofInt n = ofRatio false n 1 := by
    rw [ofInt, ofRational, decide_eq_false (by omega), Int.natAbs_natCast]
  obtain ⟨hfinite, hvalue⟩ := ofRatio_value false Nat.one_ne_zero hlt
  rw [if_neg Bool.false_ne_true, one_mul] at hvalue
  rw [hofInt, hvalue]
  refine ⟨hfinite, ?_, ?_⟩
  · have hle : ((1 : Nat) : ℚ) * 2 ^ (0 : Int) ≤ nearest n 1 :=
      le_nearest Nat.one_ne_zero (by decide) (by decide)
        (by rw [hwhole, zpow_zero, mul_one, Nat.cast_one]; exact hone)
    rwa [zpow_zero, mul_one, Nat.cast_one] at hle
  · have hle := nearest_le_relative Nat.one_ne_zero (hwhole.symm ▸ hone)
    rwa [hwhole] at hle

theorem powerOfTen_spec {k : Nat} (hk : k ≤ 308) :
    (powerOfTen k).isFinite = true ∧ 1 ≤ (powerOfTen k).value ∧
      (powerOfTen k).value ≤ 10 ^ k * (1 + 1 / 2 ^ 53) := by
  have hle : (10 : ℚ) ^ k ≤ 10 ^ 308 := pow_le_pow_right₀ (by norm_num) hk
  have hcast : (((10 ^ k : Nat) : Nat) : ℚ) = 10 ^ k := by push_cast; rfl
  have hpower : powerOfTen k = ofInt ((10 ^ k : Nat) : Int) := by
    rw [powerOfTen]
    congr 1
  have h := ofInt_natCast (n := 10 ^ k) (Nat.pow_pos (by decide)).ne'
    (hcast ▸ hle.trans_lt ten_pow_lt_overflow.1)
  rwa [hpower, ← hcast]

/-- A quotient by a power of ten is finite and not greater than what is divided. -/
theorem div_powerOfTen {x : Binary64} (hx : x.isFinite = true) (hlow : 0 ≤ x.value)
    (hhigh : x.value ≤ 2 ^ 64) {k : Nat} (hk : k ≤ 308) :
    (x.div (powerOfTen k)).isFinite = true ∧ 0 ≤ (x.div (powerOfTen k)).value ∧
      (x.div (powerOfTen k)).value ≤ 2 ^ 64 := by
  obtain ⟨hfinite, hone, -⟩ := powerOfTen_spec hk
  have hquotient : x.value / (powerOfTen k).value ≤ 2 ^ 64 := (div_le_self hlow hone).trans hhigh
  have hnonneg : 0 ≤ x.value / (powerOfTen k).value := div_nonneg hlow (by linarith)
  have hrounds := rounds_div hx hfinite (by linarith)
    (lt_overflow_of_le (n := 64) (by decide) (by rwa [abs_of_nonneg hnonneg]))
  refine ⟨hrounds.finite, hrounds.ge 0 ⟨0, 0, by decide, by decide, by simp⟩ hnonneg, ?_⟩
  exact hrounds.le _ ⟨2 ^ 53, 11, le_rfl, by decide, by norm_num⟩ hquotient

/-- The significand as a floating point number. -/
theorem ofInt_significand {n : Nat} (hzero : n ≠ 0) (hn : n < significandBound) :
    (ofInt n).isFinite = true ∧ 1 ≤ (ofInt n).value ∧ (ofInt n).value ≤ n * (1 + 1 / 2 ^ 53) ∧
      (ofInt n).value ≤ 2 ^ 64 := by
  have hbound : (n : ℚ) ≤ 2 ^ 64 := by
    have hle : n ≤ 2 ^ 64 := hn.le
    exact_mod_cast hle
  obtain ⟨hfinite, hlow, hhigh⟩ := ofInt_natCast hzero (lt_overflow_of_le (by decide) hbound)
  have hrounds :=
    rounds_ofInt (i := n) (lt_overflow_of_le (n := 64) (by decide) (by simpa using hbound))
  refine ⟨hfinite, hlow, hhigh, ?_⟩
  exact hrounds.le _ ⟨2 ^ 53, 11, le_rfl, by decide, by norm_num⟩ (by simpa using hbound)

/-- A product with a power of ten is finite if the decimal is not too large. -/
theorem mul_powerOfTen {n k : Nat} (hzero : n ≠ 0) (hn : n < significandBound)
    (h : (n : ℚ) * 10 ^ k ≤ safe) :
    k ≤ 308 ∧ ((ofInt n).mul (powerOfTen k)).isFinite = true := by
  have hone : (1 : ℚ) ≤ n := by exact_mod_cast Nat.pos_of_ne_zero hzero
  have hpower : (10 : ℚ) ^ k ≤ safe := (le_mul_of_one_le_left (by positivity) hone).trans h
  have hk : k ≤ 308 := by
    by_contra hlt
    have hbeyond : (10 : ℚ) ^ 309 ≤ 10 ^ k := pow_le_pow_right₀ (by norm_num) (by omega)
    exact absurd (hbeyond.trans hpower) (not_le.mpr (safe_lt_overflow.trans ten_pow_lt_overflow.2))
  obtain ⟨hfinite, hlow, hhigh, -⟩ := ofInt_significand hzero hn
  obtain ⟨hfinite', hlow', hhigh'⟩ := powerOfTen_spec hk
  -- both factors are rounded up at most, and so is their product
  have hproduct : (ofInt n).value * (powerOfTen k).value < overflow := by
    refine lt_of_le_of_lt ?_ safe_rounded_lt_overflow
    calc (ofInt n).value * (powerOfTen k).value
        ≤ n * (1 + 1 / 2 ^ 53) * (10 ^ k * (1 + 1 / 2 ^ 53)) :=
          mul_le_mul hhigh hhigh' (by linarith) (by positivity)
      _ = n * 10 ^ k * (1 + 1 / 2 ^ 53) * (1 + 1 / 2 ^ 53) := by ring
      _ ≤ safe * (1 + 1 / 2 ^ 53) * (1 + 1 / 2 ^ 53) := by gcongr
  exact ⟨hk, (rounds_mul hfinite hfinite' (by rwa [abs_of_nonneg (by positivity)])).finite⟩

/-- The number of a significand and an exponent is finite if the decimal is not too large. -/
theorem scaleByPower_finite {n : Nat} {e : Int} (hn : n < significandBound)
    (h : (n : ℚ) * 10 ^ e ≤ safe) :
    ∃ x, scaleByPower n e = some x ∧ x.isFinite = true := by
  rcases eq_or_ne n 0 with rfl | hzero
  · exact ⟨ofInt 0, by simp [scaleByPower], rfl⟩
  obtain ⟨hfinite, hlow, -, htop⟩ := ofInt_significand hzero hn
  rw [scaleByPower, if_neg hzero]
  split
  next hpos =>
    obtain ⟨k, rfl⟩ := Int.eq_ofNat_of_zero_le hpos
    rw [zpow_natCast] at h
    obtain ⟨hk, hproduct⟩ := mul_powerOfTen hzero hn h
    rw [if_pos (by exact_mod_cast hk), Int.toNat_natCast]
    exact ⟨_, if_pos hproduct, hproduct⟩
  next =>
    split
    next hone =>
      obtain ⟨hfinite', -, -⟩ :=
        div_powerOfTen hfinite (by linarith) htop (k := (-e).toNat) (by omega)
      exact ⟨_, rfl, hfinite'⟩
    next =>
    split
    next htwo =>
      obtain ⟨hfinite₁, hlow₁, htop₁⟩ := div_powerOfTen hfinite (by linarith) htop (le_refl 308)
      obtain ⟨hfinite₂, -, -⟩ :=
        div_powerOfTen hfinite₁ hlow₁ htop₁ (k := (-e - 308).toNat) (by omega)
      exact ⟨_, rfl, hfinite₂⟩
    next => exact ⟨_, rfl, rfl⟩

/-! ### Reading -/

/-- The number with the other sign has the same exponent. -/
theorem isFinite_neg (x : Binary64) : x.neg.isFinite = x.isFinite := by
  have hfinite : ∀ y : Binary64, y.isFinite = decide (y.bits.toNat / 2 ^ 52 % 2048 ≠ 2047) := by
    intro y
    simp only [isFinite, view]
    by_cases hexponent : y.bits.toNat / 2 ^ 52 % 2048 = 2047
    · rw [if_pos hexponent, decide_eq_false (not_not.mpr hexponent)]
      by_cases hfraction : y.bits.toNat % 2 ^ 52 = 0
      · rw [if_pos hfraction]
      · rw [if_neg hfraction]
    · rw [if_neg hexponent, decide_eq_true hexponent]
      by_cases hzero : y.bits.toNat / 2 ^ 52 % 2048 = 0
      · rw [if_pos hzero]
      · rw [if_neg hzero]
  have hbits : x.neg.bits.toNat % 2 ^ 63 = x.bits.toNat % 2 ^ 63 := by
    rw [neg, UInt64.toNat_xor, Nat.xor_mod_two_pow]
    exact Nat.xor_zero _
  rw [hfinite, hfinite]
  have hexponent : ∀ n : Nat, n / 2 ^ 52 % 2048 = n % 2 ^ 63 / 2 ^ 52 := by
    intro n
    omega
  rw [hexponent, hexponent, hbits]

/-- A significand and an exponent that make a finite number are read as one. -/
theorem signedReal_finite (neg : Bool) {n : Nat} {e : Int}
    (h : ∃ x, scaleByPower n e = some x ∧ x.isFinite = true) (rest : List Char) :
    ∃ y hy, signedReal neg n e rest = .ok (.real y hy, rest) := by
  obtain ⟨x, hx, hfinite⟩ := h
  have hsigned : (if neg then x.neg else x).isFinite = true := by
    split
    · rwa [isFinite_neg]
    · exact hfinite
  refine ⟨_, hsigned, ?_⟩
  rw [signedReal, hx]
  exact dif_pos hsigned

/-- What is read of digits around a point: as many of the digits after it as fit. -/
theorem number_point (neg : Bool) {ds fs rest : List Char} (hds : Leading ds)
    (hlength : ds.length ≤ 16) (hfs : Digits fs) (hne : fs ≠ []) (hrest : EndsDigits rest) :
    ∃ n count : Nat, n < significandBound ∧ count ≤ fs.length ∧
      n * 10 ^ (fs.length - count) ≤ Nat.ofDigitChars 10 (ds ++ fs) 0 ∧
      (Nat.ofDigitChars 10 (ds ++ fs) 0 < significandBound →
        n = Nat.ofDigitChars 10 (ds ++ fs) 0 ∧ count = fs.length) ∧
      number neg (ds ++ '.' :: (fs ++ rest)) = afterDigits neg n (-(count : Int)) rest := by
  have hfits : Nat.ofDigitChars 10 ds 0 < significandBound := calc
    Nat.ofDigitChars 10 ds 0 < 10 ^ ds.length := ofDigitChars_lt hds.digits
    _ ≤ 10 ^ 16 := Nat.pow_le_pow_right (by decide) hlength
    _ < significandBound := by decide
  have hread : digits (fs ++ rest) = fs := takeWhile_digits hfs hrest
  obtain ⟨hle, -, hlt⟩ := appendDigits_spec significandBound hfits fs
  have hvalue := appendDigits_le significandBound hfits fs
  have hsplit :
      Nat.ofDigitChars 10 fs (Nat.ofDigitChars 10 ds 0) = Nat.ofDigitChars 10 (ds ++ fs) 0 :=
    (Nat.ofDigitChars_append 0).symm
  rw [hsplit] at hvalue
  refine ⟨_, _, hlt, hle, hvalue, ?_, ?_⟩
  · intro hall
    rw [← hsplit] at hall ⊢
    rw [appendDigits_all hall]
    exact ⟨rfl, rfl⟩
  · rw [number_append neg hds (by rintro c ⟨⟩; rfl), afterLeading, appendDigits_all hfits]
    simp only [hread, Nat.sub_self, List.drop_left]
    rw [if_neg (by simpa using hne)]
    congr 1
    simp

/-- An exponent is read behind its sign. -/
theorem exponent_digits (neg : Bool) (n : Nat) (start : Int) (down : Bool)
    {e : Nat} (he : e < 2 ^ 31) {rest : List Char} (hrest : EndsDigits rest) :
    exponent neg n start ((if down then '-' else '+') :: (Nat.toDigits 10 e ++ rest)) =
      signedReal neg n (if down then start - e else start + e) rest := by
  have hds := digits_toDigits e
  have hread : digits (Nat.toDigits 10 e ++ rest) = Nat.toDigits 10 e := takeWhile_digits hds hrest
  have hfits : Nat.ofDigitChars 10 (Nat.toDigits 10 e) 0 < exponentBound := by
    rwa [Nat.ofDigitChars_ten_toDigits]
  have hall := appendDigits_all hfits
  rw [Nat.ofDigitChars_ten_toDigits] at hall
  have hsigned : ∀ cs, cs = Nat.toDigits 10 e ++ rest →
      exponent neg n start ((if down then '-' else '+') :: cs) =
        signedReal neg n (if down then start - e else start + e) rest := by
    intro cs hcs
    cases cs with
    | nil => exact absurd hcs.symm (List.append_ne_nil_of_left_ne_nil Nat.toDigits_ne_nil rest)
    | cons c r =>
      have hc : ¬(!c.isDigit) = true := by
        rw [isDigit_of_append hds Nat.toDigits_ne_nil hcs.symm]
        exact Bool.false_ne_true
      cases down with
      | false =>
        rw [if_neg Bool.false_ne_true, exponent, if_neg hc, hcs]
        simp [hread, hall]
      | true =>
        rw [if_pos rfl, exponent, if_neg hc, hcs]
        simp [hread, hall]
  exact hsigned _ rfl

/-! ### The texts -/

theorem ofDigitChars_digitChars (d : Decimal) : Nat.ofDigitChars 10 d.digitChars 0 = d.digits :=
  Nat.ofDigitChars_ten_toDigits

theorem digits_eq_zero {d : Decimal} {cs : List Char} (h : d.digitChars = '0' :: cs) :
    d.digits = 0 := by
  by_contra hne
  exact absurd (by rw [← Decimal.digitChars, h]; rfl) (toDigits_head_ne_zero hne)

/-- Positional notation without places after the point, but for the zero there. -/
theorem positional_nonneg (d : Decimal) (hzero : d.digits = 0 → d.exponent = 0)
    (hpos : 0 ≤ d.exponent) (hpower : d.exponent + (d.digitChars.length : Int) ≤ 16) :
    ∃ ds fs, Layout.positional true d.digitChars d.exponent = ds ++ '.' :: fs ∧
      Leading ds ∧ ds.length ≤ 16 ∧
      Digits fs ∧ fs ≠ [] ∧ (Nat.ofDigitChars 10 (ds ++ fs) 0 : ℚ) = d.value * 10 ^ fs.length := by
  have hds : Digits d.digitChars := digits_toDigits d.digits
  obtain ⟨e, he⟩ := Int.eq_ofNat_of_zero_le hpos
  refine ⟨d.digitChars ++ List.replicate e '0', ['0'], ?_,
    ⟨hds.append (digits_replicate e), ?_, ?_⟩, ?_, digits_replicate 1, by simp, ?_⟩
  · rw [Layout.positional, if_pos hpos, if_pos rfl, he, Int.toNat_natCast]
  · exact List.append_ne_nil_of_left_ne_nil Nat.toDigits_ne_nil _
  · intro r hr
    obtain ⟨c, cs, hcs⟩ := List.exists_cons_of_ne_nil (l := d.digitChars) Nat.toDigits_ne_nil
    rw [hcs, List.cons_append] at hr
    obtain ⟨rfl, rfl⟩ := List.cons.inj hr
    have hdigits := digits_eq_zero hcs
    have he : e = 0 := by
      have := hzero hdigits
      omega
    rw [toDigits_ne_zero (show Nat.toDigits 10 d.digits = '0' :: cs from hcs), he]
    rfl
  · rw [List.length_append, List.length_replicate]
    omega
  · have hten : ∀ n, Nat.ofDigitChars 10 ['0'] n = 10 * n := fun n => rfl
    rw [Nat.ofDigitChars_append, Nat.ofDigitChars_append, ofDigitChars_digitChars,
      Nat.ofDigitChars_replicate_zero, hten, Decimal.value, he, zpow_natCast,
      List.length_singleton, pow_one]
    push_cast
    ring

/-- Positional notation with places after the point. -/
theorem positional_neg (d : Decimal) (hzero : d.digits ≠ 0) (hneg : d.exponent < 0)
    (hpower : d.exponent + (d.digitChars.length : Int) ≤ 16) :
    ∃ ds fs, Layout.positional true d.digitChars d.exponent = ds ++ '.' :: fs ∧
      Leading ds ∧ ds.length ≤ 16 ∧
      Digits fs ∧ fs ≠ [] ∧ (Nat.ofDigitChars 10 (ds ++ fs) 0 : ℚ) = d.value * 10 ^ fs.length := by
  obtain ⟨p, hp⟩ : ∃ p : Nat, d.exponent = -(p : Int) := ⟨(-d.exponent).toNat, by omega⟩
  have hds : Digits (Layout.padLeft (p + 1) d.digitChars) :=
    (digits_replicate _).append (digits_toDigits d.digits)
  have hlength :
      (Layout.padLeft (p + 1) d.digitChars).length = max (p + 1) d.digitChars.length := by
    rw [Layout.padLeft, List.length_append, List.length_replicate]
    omega
  have hvalue : Nat.ofDigitChars 10 (Layout.padLeft (p + 1) d.digitChars) 0 = d.digits := by
    rw [Layout.padLeft, Nat.ofDigitChars_append, Nat.ofDigitChars_replicate_zero, Nat.mul_zero,
      ofDigitChars_digitChars]
  have hwide : d.digitChars.length ≥ p + 1 →
      Layout.padLeft (p + 1) d.digitChars = d.digitChars := by
    intro h
    rw [Layout.padLeft, Nat.sub_eq_zero_of_le h]
    rfl
  have hpositional : Layout.positional true d.digitChars d.exponent =
      (Layout.padLeft (p + 1) d.digitChars).take
        ((Layout.padLeft (p + 1) d.digitChars).length - p) ++
      '.' :: (Layout.padLeft (p + 1) d.digitChars).drop
        ((Layout.padLeft (p + 1) d.digitChars).length - p) := by
    rw [Layout.positional, if_neg (by omega), hp, Int.neg_neg, Int.toNat_natCast]
  rw [hpositional]
  generalize Layout.padLeft (p + 1) d.digitChars = cs at *
  refine ⟨_, _, rfl, ⟨?_, ?_, ?_⟩, ?_, ?_, ?_, ?_⟩
  · exact fun c hc => hds c (List.mem_of_mem_take hc)
  · rw [← List.length_pos_iff, List.length_take]
    omega
  · intro r hr
    -- a zero in front is the padding, and then the point follows at once
    rcases Nat.lt_or_ge p d.digitChars.length with hwider | hnarrow
    · obtain ⟨c, tail, hcs⟩ := List.exists_cons_of_ne_nil (l := d.digitChars) Nat.toDigits_ne_nil
      have hhead : (cs.take (cs.length - p)).head? = some c := by
        rw [hwide hwider, List.head?_take, if_neg (by omega), hcs]
        rfl
      rw [hr] at hhead
      obtain rfl := Option.some.inj hhead
      exact absurd (digits_eq_zero hcs) hzero
    · have hone := congrArg List.length hr
      rw [List.length_take, List.length_cons] at hone
      exact List.length_eq_zero_iff.mp (by omega)
  · rw [List.length_take]
    omega
  · exact fun c hc => hds c (List.mem_of_mem_drop hc)
  · rw [← List.length_pos_iff, List.length_drop]
    omega
  · have hplaces : cs.length - (cs.length - p) = p := by omega
    have hpow : (10 : ℚ) ^ p ≠ 0 := by positivity
    rw [List.take_append_drop, hvalue, List.length_drop, hplaces, Decimal.value, hp,
      zpow_neg, zpow_natCast]
    field_simp

/-- Positional notation: leading digits, a point and more digits, which make up the decimal. -/
theorem positional_eq (d : Decimal) (hzero : d.digits = 0 → d.exponent = 0)
    (hpower : d.exponent + (d.digitChars.length : Int) ≤ 16) :
    ∃ ds fs, Layout.positional true d.digitChars d.exponent = ds ++ '.' :: fs ∧
      Leading ds ∧ ds.length ≤ 16 ∧
      Digits fs ∧ fs ≠ [] ∧ (Nat.ofDigitChars 10 (ds ++ fs) 0 : ℚ) = d.value * 10 ^ fs.length := by
  rcases lt_or_ge d.exponent 0 with hneg | hpos
  · exact positional_neg d (fun h => absurd (hzero h) hneg.ne) hneg hpower
  · exact positional_nonneg d hzero hpos hpower

/-- What is read of digits is at most what they make up. -/
theorem kept_le {n count total len : Nat} (hcount : count ≤ len)
    (h : n * 10 ^ (len - count) ≤ total) :
    (n : ℚ) * 10 ^ (-(count : Int)) ≤ total * 10 ^ (-(len : Int)) := by
  have hten : (10 : ℚ) ≠ 0 := by norm_num
  have h' : (n : ℚ) * 10 ^ (len - count) ≤ total := by exact_mod_cast h
  calc (n : ℚ) * 10 ^ (-(count : Int)) = n * 10 ^ (len - count) * 10 ^ (-(len : Int)) := by
        rw [mul_assoc, ← zpow_natCast, ← zpow_add₀ hten]
        congr 2
        omega
    _ ≤ total * 10 ^ (-(len : Int)) := mul_le_mul_of_nonneg_right h' (zpow_nonneg (by norm_num) _)

/-- Positional notation is read as the decimal, as many of its digits as fit. -/
theorem number_positional (neg : Bool) (d : Decimal) (hzero : d.digits = 0 → d.exponent = 0)
    (hpower : d.exponent + (d.digitChars.length : Int) ≤ 16) {rest : List Char}
    (hrest : Closes rest) :
    ∃ (n : Nat) (e : Int), n < significandBound ∧ (n : ℚ) * 10 ^ e ≤ d.value ∧
      number neg (Layout.positional true d.digitChars d.exponent ++ rest) =
        signedReal neg n e rest := by
  obtain ⟨ds, fs, htext, hds, hlength, hfs, hne, hvalue⟩ := positional_eq d hzero hpower
  obtain ⟨n, count, hn, hcount, hle, -, hread⟩ :=
    number_point neg hds hlength hfs hne hrest.endsDigits
  refine ⟨n, -(count : Int), hn, ?_, ?_⟩
  · refine (kept_le hcount hle).trans_eq ?_
    rw [hvalue, zpow_neg, zpow_natCast]
    field_simp
  · rw [htext, List.append_assoc, List.cons_append, hread]
    cases rest with
    | nil => rfl
    | cons c rest =>
      rcases hrest c rfl with rfl | rfl | rfl
      · rfl
      · rfl
      · rfl

def powerChars (power : Int) : List Char :=
  (if power < 0 then '-' else '+') :: Layout.padLeft 1 (Nat.toDigits 10 power.natAbs)

theorem exponent_power (neg : Bool) (n : Nat) (start : Int) {power : Int}
    (hbound : power.natAbs < 2 ^ 31) {rest : List Char} (hrest : EndsDigits rest) :
    exponent neg n start (powerChars power ++ rest) = signedReal neg n (start + power) rest := by
  have hpad : Layout.padLeft 1 (Nat.toDigits 10 power.natAbs) = Nat.toDigits 10 power.natAbs := by
    rw [Layout.padLeft, Nat.sub_eq_zero_of_le Nat.length_toDigits_pos]
    rfl
  have hread := exponent_digits neg n start (decide (power < 0)) hbound hrest
  have hsum : (if power < 0 then start - (power.natAbs : Int) else start + power.natAbs) =
      start + power := by
    split <;> omega
  simp only [decide_eq_true_eq, hsum] at hread
  rw [powerChars, hpad, List.cons_append, hread]

/-- The only digit of a decimal is read with its power of ten. -/
theorem number_digit (neg : Bool) {c : Char} (hc : Leading [c]) {power : Int}
    (hbound : power.natAbs < 2 ^ 31) {rest : List Char} (hrest : EndsDigits rest) :
    Nat.ofDigitChars 10 [c] 0 < significandBound ∧
      number neg (Layout.scientific false 1 [c] power ++ rest) =
        signedReal neg (Nat.ofDigitChars 10 [c] 0) power rest := by
  have hfits : Nat.ofDigitChars 10 [c] 0 < significandBound :=
    (ofDigitChars_lt hc.digits).trans (show (10 : Nat) ^ 1 < significandBound by decide)
  have htext : Layout.scientific false 1 [c] power ++ rest = [c] ++
      'e' :: (powerChars power ++ rest) := rfl
  refine ⟨hfits, ?_⟩
  rw [htext, number_append neg hc (by rintro c ⟨⟩; rfl), afterLeading, appendDigits_all hfits]
  simp only [List.length_singleton, Nat.sub_self]
  rw [exponent_power neg _ _ hbound hrest]
  simp

/-- Several digits are read with a point behind the first one, as many as fit. -/
theorem number_digits (neg : Bool) {c f : Char} {fs : List Char} (hc : Leading [c])
    (hfs : Digits (f :: fs)) {power : Int} (hbound : power.natAbs < 2 ^ 31) {rest : List Char}
    (hrest : EndsDigits rest) :
    ∃ n count : Nat, n < significandBound ∧ count ≤ (f :: fs).length ∧
      n * 10 ^ ((f :: fs).length - count) ≤ Nat.ofDigitChars 10 (c :: f :: fs) 0 ∧
      (Nat.ofDigitChars 10 (c :: f :: fs) 0 < significandBound →
        n = Nat.ofDigitChars 10 (c :: f :: fs) 0 ∧ count = (f :: fs).length) ∧
      number neg (Layout.scientific false 1 (c :: f :: fs) power ++ rest) =
        signedReal neg n (-(count : Int) + power) rest := by
  have htext : Layout.scientific false 1 (c :: f :: fs) power ++ rest =
      [c] ++ '.' :: (f :: fs ++ 'e' :: (powerChars power ++ rest)) := by
    simp [Layout.scientific, powerChars]
  obtain ⟨n, count, hn, hcount, hle, hall, hread⟩ := number_point neg hc (by simp) hfs (by simp)
    (show EndsDigits ('e' :: (powerChars power ++ rest)) by rintro c ⟨⟩; rfl)
  refine ⟨n, count, hn, hcount, hle, hall, ?_⟩
  rw [htext, hread]
  exact exponent_power neg n _ hbound hrest

/-- Notation with an exponent is read as the decimal, as many of its digits as fit. -/
theorem number_scientific (neg : Bool) (d : Decimal) {power : Int}
    (hpower : power = d.exponent + d.digitChars.length - 1) (hbound : power.natAbs < 2 ^ 31)
    {rest : List Char} (hrest : Closes rest) :
    ∃ (n : Nat) (e : Int), n < significandBound ∧ (n : ℚ) * 10 ^ e ≤ d.value ∧
      (d.digits < significandBound → n = d.digits ∧ e = d.exponent) ∧
      number neg (Layout.scientific false 1 d.digitChars power ++ rest) =
        signedReal neg n e rest := by
  obtain ⟨c, fs, hcs⟩ := List.exists_cons_of_ne_nil (l := d.digitChars) Nat.toDigits_ne_nil
  have hds : Digits (c :: fs) := hcs ▸ digits_toDigits d.digits
  have hvalue := ofDigitChars_digitChars d
  rw [hcs] at hpower hvalue ⊢
  have hleading : Leading [c] :=
    ⟨fun x hx => hds x (by simp_all), by simp, fun _ h => (List.cons.inj h).2.symm⟩
  cases fs with
  | nil =>
    obtain ⟨hfits, hread⟩ := number_digit neg hleading hbound hrest.endsDigits
    have hexponent : d.exponent = power := by
      rw [hpower]
      simp
    rw [hvalue] at hfits hread
    exact ⟨d.digits, d.exponent, hfits, le_rfl, fun _ => ⟨rfl, rfl⟩, by rw [hread, hexponent]⟩
  | cons f fs =>
    have hfs : Digits (f :: fs) := fun x hx => hds x (List.mem_cons_of_mem c hx)
    have hpower' : power = d.exponent + (f :: fs).length := by
      rw [hpower, List.length_cons]
      push_cast
      ring
    obtain ⟨n, count, hn, hcount, hle, hall, hread⟩ :=
      number_digits neg hleading hfs hbound hrest.endsDigits
    rw [hvalue] at hle hall
    refine ⟨n, -(count : Int) + power, hn, ?_, ?_, hread⟩
    · have hten : (10 : ℚ) ≠ 0 := by norm_num
      rw [zpow_add₀ hten, ← mul_assoc]
      refine (mul_le_mul_of_nonneg_right (kept_le hcount hle)
        (zpow_nonneg (by norm_num) power)).trans_eq ?_
      rw [Decimal.value, mul_assoc, ← zpow_add₀ hten, hpower']
      congr 2
      ring
    · intro hfits
      obtain ⟨hn, hcount⟩ := hall hfits
      refine ⟨hn, ?_⟩
      rw [hcount, hpower']
      ring

/-! ### The text of the shortest decimal -/

/-- The half place above every number but the last two is safe. -/
theorem half_place_le_safe {m : Nat} {q : Int} (hm : m < 2 ^ 53) (hq : q ≤ 971)
    (h : q = 971 → m ≤ 2 ^ 53 - 3) : ((m : ℚ) + 1 / 2) * 2 ^ q ≤ safe := by
  rw [safe]
  rcases Int.lt_or_eq_of_le hq with hlt | rfl
  · have hm' : (m : ℚ) + 1 / 2 ≤ 2 ^ 54 - 5 := by
      have hle : (m : ℚ) ≤ 2 ^ 53 := by exact_mod_cast hm.le
      linarith
    exact mul_le_mul hm' (two_zpow_le (by omega)) (two_zpow_pos _).le (by norm_num)
  · have hm' : ((m : ℚ) + 1 / 2) * 2 ≤ 2 ^ 54 - 5 := by
      have hle : m + 3 ≤ 2 ^ 53 := by
        have := h rfl
        omega
      have hle' : (m : ℚ) + 3 ≤ 2 ^ 53 := by exact_mod_cast hle
      linarith
    rw [show (971 : Int) = 1 + 970 from rfl, two_zpow_add, zpow_one, ← mul_assoc]
    exact mul_le_mul_of_nonneg_right hm' (two_zpow_pos _).le

/-- The two largest numbers are read from all of their digits. -/
theorem shortest_largest :
    shortest (2 ^ 53 - 1) 971 = ⟨17976931348623157, 292⟩ ∧
      shortest (2 ^ 53 - 2) 971 = ⟨17976931348623155, 292⟩ ∧
      (scaleByPower 17976931348623157 292).any isFinite = true ∧
      (scaleByPower 17976931348623155 292).any isFinite = true := by
  decide +kernel

/-- Which notation a decimal is written in. -/
theorem json_decimal (d : Decimal) {power : Int}
    (hpower : power = d.exponent + d.digitChars.length - 1) :
    Layout.json.decimal d = if -5 ≤ power ∧ power ≤ 15 then Layout.positional true
      d.digitChars d.exponent
      else Layout.scientific false 1 d.digitChars power := by
  have hunfold : Layout.json.decimal d =
      if (decide (-5 ≤ power) && decide (power ≤ 15)) = true then
        Layout.positional true d.digitChars d.exponent
      else Layout.scientific false 1 d.digitChars power := by
    rw [hpower]
    rfl
  rw [hunfold]
  simp only [Bool.and_eq_true, decide_eq_true_eq]

/-- The text of a decimal is read as a finite number if what its digits make up is safe. -/
theorem number_safe (neg : Bool) {d : Decimal} (hzero : d.digits = 0 → d.exponent = 0)
    (hexponent : d.exponent.natAbs ≤ 350) (hlength : d.digitChars.length ≤ 659)
    (hsafe : d.value ≤ safe) {rest : List Char} (hrest : Closes rest) :
    ∃ y hy, number neg (Layout.json.decimal d ++ rest) = .ok (.real y hy, rest) := by
  rw [json_decimal d rfl]
  split
  next hplain =>
    obtain ⟨n, e, hn, hle, hread⟩ := number_positional neg d hzero (by omega) hrest
    rw [hread]
    exact signedReal_finite neg (scaleByPower_finite hn (hle.trans hsafe)) rest
  next =>
    obtain ⟨n, e, hn, hle, -, hread⟩ := number_scientific neg d rfl (by omega) hrest
    rw [hread]
    exact signedReal_finite neg (scaleByPower_finite hn (hle.trans hsafe)) rest

/-- The text of a large decimal is read as its digits and its power of ten. -/
theorem number_large (neg : Bool) (d : Decimal) (hdigits : d.digits < significandBound)
    (hlarge : 16 ≤ d.exponent) (hexponent : d.exponent.natAbs ≤ 350)
    (hlength : d.digitChars.length ≤ 659)
    (hfinite : (scaleByPower d.digits d.exponent).any isFinite = true) {rest : List Char}
    (hrest : Closes rest) :
    ∃ y hy, number neg (Layout.json.decimal d ++ rest) = .ok (.real y hy, rest) := by
  have hpos : 0 < d.digitChars.length := Nat.length_toDigits_pos
  obtain ⟨n, e, -, -, hall, hread⟩ := number_scientific neg d rfl (by omega) hrest
  obtain ⟨rfl, rfl⟩ := hall hdigits
  rw [json_decimal d rfl, if_neg (by omega), hread]
  exact signedReal_finite neg ((Option.any_eq_true _ _).mp hfinite) rest

/-- The text of the shortest decimal of a finite number is read as a finite number. -/
theorem number_shortest (neg : Bool) {m : Nat} {q : Int} (hm : m ≠ 0)
    (hbits : m < 2 ^ 53) (hq : q ≤ 971) {rest : List Char} (hrest : Closes rest) :
    ∃ y hy, number neg (Layout.json.decimal (shortest m q) ++ rest) = .ok (.real y hy, rest) := by
  -- the two largest numbers are not safe: their digits are all kept, and what is read of them is
  -- evaluated
  by_cases hlargest : q = 971 ∧ 2 ^ 53 - 3 < m
  · obtain ⟨rfl, hm⟩ := hlargest
    obtain ⟨hlast, hbefore, hlastFinite, hbeforeFinite⟩ := shortest_largest
    obtain rfl | rfl : m = 2 ^ 53 - 1 ∨ m = 2 ^ 53 - 2 := by omega
    · rw [hlast]
      exact number_large neg ⟨17976931348623157, 292⟩ (by decide) (by decide) (by decide)
        (by decide) hlastFinite
        hrest
    · rw [hbefore]
      exact number_large neg ⟨17976931348623155, 292⟩ (by decide) (by decide) (by decide)
        (by decide) hbeforeFinite
        hrest
  · obtain ⟨hle, hzero, hlow, hhigh⟩ := shortest_spec hm (q := q)
    have hlength := digitChars_length_le hlow (hle.trans (half_place_le_overflow hbits hq))
    have hsafe := hle.trans (half_place_le_safe hbits hq fun h => by omega)
    exact number_safe neg hzero (by omega) hlength hsafe hrest

/-- What stands in a text for a finite number is a sign, if it has one, and digits that are read as
a finite number. -/
theorem write_finite {x : Binary64} (hx : x.isFinite = true) :
    ∃ neg cs, (Layout.json.write x).toList = (if neg then '-' :: cs else cs) ∧
      ∀ rest, Closes rest → ∃ y hy, number neg (cs ++ rest) = .ok (.real y hy, rest) := by
  obtain ⟨neg, m, q, hview⟩ := exists_view hx
  obtain ⟨hm, hq⟩ := view_bounds hview
  rw [Layout.write, hview]
  dsimp only
  by_cases hzero : m = 0
  · refine ⟨neg, Layout.positional true ['0'] 0, ?_, fun rest hrest => ?_⟩
    · rw [if_pos hzero, String.toList_ofList]
      cases neg <;> rfl
    · obtain ⟨n, e, hn, hle, hread⟩ := number_positional neg ⟨0, 0⟩ (fun _ => rfl) (by decide) hrest
      have hsafe : (Decimal.mk 0 0).value ≤ safe := by
        rw [Decimal.value, Nat.cast_zero, zero_mul]
        exact mul_nonneg (by norm_num) (two_zpow_pos _).le
      have hread' : number neg (Layout.positional true ['0'] 0 ++ rest) = signedReal neg n e rest :=
        hread
      rw [hread']
      exact signedReal_finite neg (scaleByPower_finite hn (hle.trans hsafe)) rest
  · refine ⟨neg, Layout.json.decimal (shortest m q), ?_,
      fun rest hrest => number_shortest neg hzero hm hq hrest⟩
    rw [if_neg hzero, String.toList_ofList]
    rfl

end TypedTables.Json
