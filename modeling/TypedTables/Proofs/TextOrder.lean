import TypedTables.Engine.Order
import TypedTables.Proofs.ClauseBytes
import TypedTables.Proofs.DigitTexts

/-!
# The order of texts

Texts compare character by character, and so do their UTF-8 bytes byte by byte: the two orders are
the same. Digits of one length compare as the numbers that they stand for.
-/
namespace TypedTables

/-! ### Numbers and lists -/

theorem compare_congr {a b c d : Int} (hlt : a < b ↔ c < d) (heq : a = b ↔ c = d) :
    compare a b = compare c d := by
  change compareOfLessAndEq a b = compareOfLessAndEq c d
  simp only [compareOfLessAndEq, hlt, heq]

theorem compare_natCast (m n : Nat) : compare (m : Int) n = compare m n := by
  change compareOfLessAndEq (m : Int) n = compareOfLessAndEq m n
  simp only [compareOfLessAndEq, Int.ofNat_lt, Int.natCast_inj]

theorem compare_add_right (m n k : Nat) : compare (m + k) (n + k) = compare m n := by
  rw [← compare_natCast, ← compare_natCast]
  exact compare_congr (by omega) (by omega)

theorem mul_add_lt_mul_add {a b r s d : Int} (h : a < b) (hr : r < d) (hs : 0 ≤ r ∧ 0 ≤ s) :
    a * d + r < b * d + s := by
  have hle : (a + 1) * d ≤ b * d := Int.mul_le_mul_of_nonneg_right h (by omega)
  rw [Int.add_mul, Int.one_mul] at hle
  omega

/-- Numbers compare by their multiples of `d`, and those with the same one by what is left. -/
theorem compare_mul_add_int {a b r s d : Int} (hr : 0 ≤ r ∧ r < d) (hs : 0 ≤ s ∧ s < d) :
    compare (a * d + r) (b * d + s) = (compare a b).then (compare r s) := by
  rcases Int.lt_trichotomy a b with h | rfl | h
  · rw [Int.compare_eq_lt.mpr h, Int.compare_eq_lt.mpr (mul_add_lt_mul_add h hr.2 ⟨hr.1, hs.1⟩)]
    rfl
  · rw [Std.compare_self, compare_congr (c := r) (d := s) (by omega) (by omega)]
    rfl
  · rw [Int.compare_eq_gt.mpr h, Int.compare_eq_gt.mpr (mul_add_lt_mul_add h hs.2 ⟨hs.1, hr.1⟩)]
    rfl

@[inherit_doc compare_mul_add_int]
theorem compare_mul_add {a b r s d : Nat} (hr : r < d) (hs : s < d) :
    compare (a * d + r) (b * d + s) = (compare a b).then (compare r s) := by
  have h : compare ((a : Int) * d + r) ((b : Int) * d + s) =
      (compare (a : Int) b).then (compare (r : Int) s) :=
    compare_mul_add_int (by omega) (by omega)
  simpa only [← Int.natCast_mul, ← Int.natCast_add, compare_natCast] using h

theorem compare_mul_right (m n : Nat) {d : Nat} (hd : 0 < d) :
    compare (m * d) (n * d) = compare m n := by
  have h : compare (m * d + 0) (n * d + 0) = _ := compare_mul_add hd hd
  rwa [Std.compare_self, Ordering.then_eq] at h

theorem compare_div_mod (m n : Nat) {d : Nat} (hd : 0 < d) :
    compare m n = (compare (m / d) (n / d)).then (compare (m % d) (n % d)) := by
  rw [← compare_mul_add (Nat.mod_lt m hd) (Nat.mod_lt n hd), Nat.div_add_mod', Nat.div_add_mod']

/-- Lists that start with parts of one length compare by these, and then by what follows. -/
theorem compare_append {α : Type} [Ord α] {as bs as' bs' : List α} (h : as.length = bs.length) :
    compare (as ++ as') (bs ++ bs') = (compare as bs).then (compare as' bs') := by
  induction as generalizing bs with
  | nil =>
    rw [List.length_nil] at h
    rw [List.eq_nil_of_length_eq_zero h.symm]
    rfl
  | cons a as ih =>
    cases bs with
    | nil => cases h
    | cons b bs =>
      rw [List.cons_append, List.cons_append, List.compare_cons_cons, List.compare_cons_cons,
        ih (Nat.succ.inj h), Ordering.then_assoc]

theorem compare_cons_self (c : Char) (as bs : List Char) :
    compare (c :: as) (c :: bs) = compare as bs := by
  rw [List.compare_cons_cons, Std.compare_self, Ordering.eq_then]

/-! ### Characters -/

theorem compare_char (c d : Char) : compare c d = compare c.toNat d.toNat := by
  change compareOfLessAndEq c d = compareOfLessAndEq c.toNat d.toNat
  simp only [compareOfLessAndEq, Char.lt_def, UInt32.lt_iff_toNat_lt, ← Char.toNat_inj]
  rfl

theorem compareOfLessAndEq_chars (as bs : List Char) :
    compareOfLessAndEq as bs = compare as bs := by
  induction as generalizing bs with
  | nil => cases bs <;> rfl
  | cons a as ih =>
    cases bs with
    | nil => rfl
    | cons b bs =>
      rw [List.compare_cons_cons, ← ih]
      change _ = (compareOfLessAndEq a b).then _
      simp only [compareOfLessAndEq, List.cons_lt_cons_iff, List.cons.injEq]
      by_cases hlt : a < b
      · simp [hlt]
      · by_cases heq : a = b
        · simp [heq]
        · simp [hlt, heq]

/-- Texts compare character by character. -/
theorem compare_toList (s t : String) : compare s t = compare s.toList t.toList := by
  rw [← compareOfLessAndEq_chars]
  change compareOfLessAndEq s t = compareOfLessAndEq s.toList t.toList
  simp only [compareOfLessAndEq, ← String.toList_inj]
  rfl

/-- Digits of one length compare as the numbers that they stand for. -/
theorem compare_digits {ds es : List Char} (hds : Digits ds) (hes : Digits es)
    (h : ds.length = es.length) :
    compare ds es = compare (Nat.ofDigitChars 10 ds 0) (Nat.ofDigitChars 10 es 0) := by
  induction ds generalizing es with
  | nil =>
    rw [List.length_nil] at h
    rw [List.eq_nil_of_length_eq_zero h.symm]
    rfl
  | cons d ds ih =>
    cases es with
    | nil => cases h
    | cons e es =>
      have hlength : ds.length = es.length := Nat.succ.inj h
      have hds' : Digits ds := fun c hc => hds c (List.mem_cons_of_mem d hc)
      have hes' : Digits es := fun c hc => hes c (List.mem_cons_of_mem e hc)
      have hd := toNat_mem_of_isDigit (hds d List.mem_cons_self)
      have he := toNat_mem_of_isDigit (hes e List.mem_cons_self)
      have hlt := ofDigitChars_lt hes'
      rw [← hlength] at hlt
      rw [List.compare_cons_cons, ih hds' hes' hlength, ofDigitChars_cons_zero,
        ofDigitChars_cons_zero, ← hlength, compare_mul_add (ofDigitChars_lt hds') hlt,
        compare_char, ← compare_add_right (d.toNat - 48) _ 48, Nat.sub_add_cancel hd.1,
        Nat.sub_add_cancel he.1]

/-- Digits are determined by their number and by how many there are. -/
theorem digits_inj {ds es : List Char} (hds : Digits ds) (hes : Digits es)
    (hlength : ds.length = es.length) (h : Nat.ofDigitChars 10 ds 0 = Nat.ofDigitChars 10 es 0) :
    ds = es := by
  have hcompare := compare_digits hds hes hlength
  rw [h, Std.compare_self] at hcompare
  exact Std.LawfulEqOrd.eq_of_compare hcompare

/-! ### Bytes -/

namespace Utf8

open Engine Clause

def trailing (n : Nat) : Nat :=
  if n ≤ 127 then 0 else if n ≤ 2047 then 1 else if n ≤ 65535 then 2 else 3

/-- What the first byte of a character says about the number of bytes behind it. -/
def mark : Nat → Nat
  | 0 => 0
  | 1 => 192
  | 2 => 224
  | _ => 240

def lead (n : Nat) : Nat := n / 64 ^ trailing n + mark (trailing n)

/-- The last `k` bytes of a character, with six bits of it each. -/
def sextets : Nat → Nat → List Nat
  | 0, _ => []
  | k + 1, n => (n / 64 ^ k % 64 + 128) :: sextets k n

theorem toNat_lt (c : Char) : c.toNat < 0x110000 := by
  have hvalid := c.valid
  have hval : c.toNat = c.val.toNat := rfl
  simp only [UInt32.isValidChar, Nat.isValidChar] at hvalid
  omega

/-- The first byte of a character by the number of bytes behind it. -/
theorem lead_cases {n : Nat} (hn : n < 0x110000) :
    (n ≤ 127 ∧ trailing n = 0 ∧ lead n = n) ∨
    ((127 < n ∧ n ≤ 2047) ∧ trailing n = 1 ∧ lead n = n / 64 + 192) ∨
    ((2047 < n ∧ n ≤ 65535) ∧ trailing n = 2 ∧ lead n = n / 4096 + 224) ∨
    (65535 < n ∧ trailing n = 3 ∧ lead n = n / 262144 + 240) := by
  by_cases h₀ : n ≤ 127
  · simp [lead, trailing, mark, h₀]
  by_cases h₁ : n ≤ 2047
  · simp [lead, trailing, mark, h₀, h₁]; omega
  by_cases h₂ : n ≤ 65535
  · simp [lead, trailing, mark, h₀, h₁, h₂]; omega
  · simp [lead, trailing, mark, h₀, h₁, h₂]; omega

theorem lt_of_lead_lt {m n : Nat} (hm : m < 0x110000) (hn : n < 0x110000) (h : lead m < lead n) :
    m < n := by
  have hm := lead_cases hm
  have hn := lead_cases hn
  omega

theorem trailing_eq_of_lead_eq {m n : Nat} (hm : m < 0x110000) (hn : n < 0x110000)
    (h : lead m = lead n) :
    trailing m = trailing n := by
  have hm := lead_cases hm
  have hn := lead_cases hn
  omega

theorem toNat_utf8EncodeChar (c : Char) :
    (String.utf8EncodeChar c).map UInt8.toNat = lead c.toNat ::
      sextets (trailing c.toNat) c.toNat := by
  have hn := toNat_lt c
  have hval : c.val.toNat = c.toNat := rfl
  simp only [String.utf8EncodeChar, hval]
  rcases lead_cases hn with ⟨h, hk, hl⟩ | ⟨h, hk, hl⟩ | ⟨h, hk, hl⟩ | ⟨h, hk, hl⟩
  · rw [hk, hl, if_pos h]
    simp [sextets]; omega
  · rw [hk, hl, if_neg (by omega), if_pos h.2]
    simp [sextets]; omega
  · rw [hk, hl, if_neg (by omega), if_neg (by omega), if_pos h.2]
    simp [sextets]; omega
  · rw [hk, hl, if_neg (by omega), if_neg (by omega), if_neg (by omega)]
    simp [sextets]; omega

/-- Numbers that agree in all but their last `k` groups of six bits compare by these. -/
theorem compare_sextets {k m n : Nat} (h : m / 64 ^ k = n / 64 ^ k) (as bs : List Nat) :
    compare (sextets k m ++ as) (sextets k n ++ bs) = (compare m n).then (compare as bs) := by
  induction k with
  | zero =>
    rw [Nat.pow_zero, Nat.div_one, Nat.div_one] at h
    rw [h, Std.compare_self]
    rfl
  | succ k ih =>
    rw [Nat.pow_succ, ← Nat.div_div_eq_div_mul, ← Nat.div_div_eq_div_mul] at h
    have hdigit :
        compare (m / 64 ^ k) (n / 64 ^ k) = compare (m / 64 ^ k % 64) (n / 64 ^ k % 64) := by
      rw [compare_div_mod _ _ (d := 64) (by decide), h, Std.compare_self]
      rfl
    rw [sextets, sextets, List.cons_append, List.cons_append, List.compare_cons_cons,
      compare_add_right, ← hdigit]
    rcases Nat.lt_trichotomy (m / 64 ^ k) (n / 64 ^ k) with hlt | heq | hgt
    · rw [Nat.compare_eq_lt.mpr hlt, Nat.compare_eq_lt.mpr (Nat.lt_of_div_lt_div hlt)]
      rfl
    · rw [ih heq, heq, Std.compare_self]
      rfl
    · rw [Nat.compare_eq_gt.mpr hgt, Nat.compare_eq_gt.mpr (Nat.lt_of_div_lt_div hgt)]
      rfl

theorem compareBytes_eq (as bs : List UInt8) :
    compareBytes as bs = compare (as.map UInt8.toNat) (bs.map UInt8.toNat) := by
  induction as generalizing bs with
  | nil => cases bs <;> rfl
  | cons a as ih =>
    cases bs with
    | nil => rfl
    | cons b bs =>
      simp only [compareBytes, UInt8.lt_iff_toNat_lt]
      rw [List.map_cons, List.map_cons, List.compare_cons_cons, ih]
      rcases Nat.lt_trichotomy a.toNat b.toNat with h | h | h
      · rw [if_pos h, Nat.compare_eq_lt.mpr h]
        rfl
      · rw [if_neg (by omega), if_neg (by omega), Nat.compare_eq_eq.mpr h]
        rfl
      · rw [if_neg (by omega), if_pos h, Nat.compare_eq_gt.mpr h]
        rfl

/-- The bytes of a character compare as the character, whatever follows. -/
theorem compareBytes_char (c d : Char) (as bs : List UInt8) :
    compareBytes (String.utf8EncodeChar c ++ as) (String.utf8EncodeChar d ++ bs) =
      (compare c d).then (compareBytes as bs) := by
  have hc := toNat_lt c
  have hd := toNat_lt d
  rw [compareBytes_eq, compareBytes_eq, List.map_append, List.map_append, toNat_utf8EncodeChar,
    toNat_utf8EncodeChar, compare_char, List.cons_append, List.cons_append, List.compare_cons_cons]
  generalize c.toNat = m at *
  generalize d.toNat = n at *
  rcases Nat.lt_trichotomy (lead m) (lead n) with hlt | heq | hgt
  · rw [Nat.compare_eq_lt.mpr hlt, Nat.compare_eq_lt.mpr (lt_of_lead_lt hc hd hlt)]
    rfl
  · -- the first byte has told how many follow and their common bits above the sextets
    have hsame := trailing_eq_of_lead_eq hc hd heq
    have hquotient : m / 64 ^ trailing n = n / 64 ^ trailing n := by
      rw [lead, lead, hsame] at heq
      exact Nat.add_right_cancel heq
    rw [heq, Std.compare_self, hsame, compare_sextets hquotient]
    rfl
  · rw [Nat.compare_eq_gt.mpr hgt, Nat.compare_eq_gt.mpr (lt_of_lead_lt hd hc hgt)]
    rfl

/-- The bytes of characters compare as the characters. -/
theorem compareBytes_utf8 (as bs : List Char) :
    compareBytes (utf8 as) (utf8 bs) = compare as bs := by
  induction as generalizing bs with
  | nil =>
    cases bs with
    | nil => rfl
    | cons b bs =>
      obtain ⟨x, xs, hx⟩ := List.exists_cons_of_ne_nil (utf8_ne_nil b bs)
      rw [hx]
      rfl
  | cons a as ih =>
    cases bs with
    | nil =>
      obtain ⟨x, xs, hx⟩ := List.exists_cons_of_ne_nil (utf8_ne_nil a as)
      rw [hx]
      rfl
    | cons b bs => rw [utf8_cons, utf8_cons, compareBytes_char, List.compare_cons_cons, ih]

/-- Texts compare as their bytes. -/
theorem compareBytes_bytes (s t : String) : compareBytes (bytes s) (bytes t) = compare s t := by
  rw [bytes_eq, bytes_eq, compareBytes_utf8, compare_toList]

end Utf8

end TypedTables
