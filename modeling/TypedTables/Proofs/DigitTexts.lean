import Mathlib.Algebra.Group.Nat.Defs

/-!
# Digits in a text

What a reader that takes digits finds in a text that starts with them, and the number that digits
stand for.
-/
namespace TypedTables

def Digits (cs : List Char) : Prop := ∀ c ∈ cs, c.isDigit = true

def EndsDigits (rest : List Char) : Prop := ∀ c ∈ rest.head?, c.isDigit = false

theorem digits_toDigits (n : Nat) : Digits (Nat.toDigits 10 n) :=
  fun _ => Nat.isDigit_of_mem_toDigits (by decide) (by decide)

theorem digits_replicate (n : Nat) : Digits (List.replicate n '0') := by
  intro c hc
  rw [(List.mem_replicate.mp hc).2]
  rfl

theorem Digits.append {as bs : List Char} (ha : Digits as) (hb : Digits bs) :
    Digits (as ++ bs) := by
  intro c hc
  rcases List.mem_append.mp hc with h | h
  · exact ha c h
  · exact hb c h

theorem takeWhile_digits {ds rest : List Char} (hds : Digits ds) (hrest : EndsDigits rest) :
    (ds ++ rest).takeWhile Char.isDigit = ds := by
  rw [List.takeWhile_append_of_pos hds]
  cases rest with
  | nil => simp
  | cons c rest =>
    have hc : c.isDigit = false := hrest c rfl
    rw [List.takeWhile_cons_of_neg (by simp [hc]), List.append_nil]

theorem isDigit_of_append {ds rest r : List Char} {c : Char} (hds : Digits ds) (hne : ds ≠ [])
    (h : ds ++ rest = c :: r) : c.isDigit = true := by
  cases ds with
  | nil => exact absurd rfl hne
  | cons d ds =>
    obtain ⟨rfl, -⟩ := List.cons.inj h
    exact hds d List.mem_cons_self

theorem toNat_mem_of_isDigit {c : Char} (h : c.isDigit = true) : 48 ≤ c.toNat ∧ c.toNat ≤ 57 := by
  simpa [Char.isDigit, Char.le_def, UInt32.le_iff_toNat_le] using h

theorem ofDigitChars_cons_zero (d : Char) (ds : List Char) :
    Nat.ofDigitChars 10 (d :: ds) 0 = (d.toNat - 48) * 10 ^ ds.length +
      Nat.ofDigitChars 10 ds 0 := by
  rw [Nat.ofDigitChars_cons, Nat.ofDigitChars_eq_ofDigitChars_zero, Nat.mul_zero,
    Nat.zero_add, Nat.mul_comm]
  rfl

theorem ofDigitChars_lt {ds : List Char} (hds : Digits ds) :
    Nat.ofDigitChars 10 ds 0 < 10 ^ ds.length := by
  induction ds with
  | nil => exact Nat.one_pos
  | cons d ds ih =>
    have hd := toNat_mem_of_isDigit (hds d List.mem_cons_self)
    have hlt := ih fun c hc => hds c (List.mem_cons_of_mem d hc)
    have hmul : (d.toNat - 48) * 10 ^ ds.length ≤ 9 * 10 ^ ds.length :=
      Nat.mul_le_mul_right _ (by omega)
    rw [ofDigitChars_cons_zero, List.length_cons, Nat.pow_succ]
    omega

end TypedTables
