import TypedTables.Number.Binary64

/-!
# Decimal numbers and the shortest one for a binary number

A decimal is `digits * 10 ^ exponent`. `shortest` answers, for a finite binary number other than
zero, the decimal with the fewest digits among those that round to it, and of these the nearest one:
the coarsest grid of powers of ten with a point that rounds to the number is the one that counts.
-/
namespace TypedTables

attribute [local instance (high)] instPowNat

/-- The number `digits * 10 ^ exponent`. -/
structure Decimal where
  digits : Nat
  exponent : Int
  deriving DecidableEq, Repr, Inhabited

namespace Decimal

def ratio (d : Decimal) : Nat × Nat :=
  if 0 ≤ d.exponent then (d.digits * 10 ^ d.exponent.toNat, 1)
  else (d.digits, 10 ^ (-d.exponent).toNat)

def toBinary64 (neg : Bool) (d : Decimal) : Binary64 :=
  let (num, den) := d.ratio
  Binary64.ofRatio neg num den

/-- The digits as characters, the highest first. -/
def digitChars (d : Decimal) : List Char := Nat.toDigits 10 d.digits

end Decimal

namespace Binary64

/-- The ends, in quarters of the last place, of the numbers that round to `m * 2 ^ q`: the lower
neighbour of a power of two is only half as far away as the upper one. -/
def quarterEnds (m : Nat) (q : Int) : Nat × Nat :=
  (4 * m - (if m = 2 ^ (52 : Nat) && q > -1074 then 1 else 2), 4 * m + 2)

/-- Whether the decimal rounds to `m * 2 ^ q`; both ends do if `m` is even. -/
def roundsFrom (m : Nat) (q : Int) (d : Decimal) : Bool :=
  let (lo, hi) := quarterEnds m q
  let (a, b) := d.ratio
  let (l, s) := scaled lo 1 (2 - q)
  let (h, t) := scaled hi 1 (2 - q)
  if m % 2 = 0 then l * b ≤ a * s && a * t ≤ h * b
  else l * b < a * s && a * t < h * b

/-- The nearest point to `m * 2 ^ q` on the grid of multiples of `10 ^ k`, among those of its two
neighbours there that round to it. -/
def onGrid (m : Nat) (q k : Int) : Option Decimal :=
  let (u, v) := scaled m 1 (-q)
  let (a, b) := if 0 ≤ k then (u, v * 10 ^ k.toNat) else (u * 10 ^ (-k).toNat, v)
  let below : Decimal := ⟨a / b, k⟩
  let above : Decimal := ⟨a / b + 1, k⟩
  let r := a % b
  match roundsFrom m q below, roundsFrom m q above with
  | true, true =>
    if 2 * r < b || (2 * r == b && a / b % 2 == 0) then some below else some above
  | true, false => some below
  | false, true => some above
  | false, false => none

/-- The exponents of ten that a finite binary number can need, the coarsest first. -/
def gridExponents : List Int := (List.range 660).map fun (i : Nat) => 309 - (i : Int)

/-- The decimal with the fewest digits that rounds to `m * 2 ^ q`. -/
def shortest (m : Nat) (q : Int) : Decimal :=
  (gridExponents.findSome? (onGrid m q)).getD ⟨0, 0⟩

/-- The multiple of `10 ^ k` nearest to `m * 2 ^ q`, a tie upwards, divided by `10 ^ k`. -/
def roundedOn (m : Nat) (q k : Int) : Nat :=
  let (u, v) := scaled m 1 (-q)
  let (a, b) := if 0 ≤ k then (u, v * 10 ^ k.toNat) else (u * 10 ^ (-k).toNat, v)
  (2 * a + b) / (2 * b)

/-- A decimal without the last `n` of the zeros at its end. -/
def stripZeros : Nat → Decimal → Decimal
  | 0, d => d
  | n + 1, d =>
    if d.digits ≠ 0 && d.digits % 10 = 0 then stripZeros n ⟨d.digits / 10, d.exponent + 1⟩ else d

/-- The decimal with `n` digits nearest to `m * 2 ^ q`, a tie upwards, without zeros at its end. -/
def nearestDigits (n m : Nat) (q : Int) : Decimal :=
  match gridExponents.find? fun k => roundedOn m q k ≥ 10 ^ (n - 1) with
  | some k => stripZeros n ⟨roundedOn m q k, k⟩
  | none => ⟨0, 0⟩

example : shortest 1 (-1074) = ⟨5, -324⟩ := by decide +kernel
example : shortest 0x1999999999999a (-56) = ⟨1, -1⟩ := by decide +kernel
example : nearestDigits 15 0x1999999999999a (-56) = ⟨1, -1⟩ := by decide +kernel

end Binary64

end TypedTables
