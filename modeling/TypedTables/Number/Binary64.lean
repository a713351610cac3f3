
/-!
# Binary floating point numbers of 64 bits

A number is its sixty-four bits. `view` reads them as not a number, an infinity, or `m * 2 ^ q` with
a sign; `ofRatio` is the one rounding rule (to the nearest, a tie to the even neighbour), and every
operation computes its exact result and rounds it once.
-/
namespace TypedTables

-- core's powers, which evaluate, also where the ones of monoids are imported
attribute [local instance (high)] instPowNat

/-- A floating point number, given by its bits: sign, eleven bits of exponent, fraction. -/
structure Binary64 where
  bits : UInt64
  deriving DecidableEq, Inhabited

namespace Binary64

/-- What the bits stand for. A finite number is `m * 2 ^ q`, negated if `neg`. -/
inductive View where
  | nan
  | infinite (neg : Bool)
  | finite (neg : Bool) (m : Nat) (q : Int)
  deriving DecidableEq

def ofFields (neg : Bool) (exponent fraction : Nat) : Binary64 :=
  ⟨UInt64.ofNat ((if neg then 2 ^ (63 : Nat) else 0) + exponent * 2 ^ (52 : Nat) + fraction)⟩

/-- The one representation used for results that are not a number. -/
def nan : Binary64 := ofFields false 2047 (2 ^ (51 : Nat))

def infinity (neg : Bool) : Binary64 := ofFields neg 2047 0

def zero (neg : Bool) : Binary64 := ofFields neg 0 0

def view (x : Binary64) : View :=
  let n := x.bits.toNat
  let neg := n / 2 ^ (63 : Nat) == 1
  let exponent : Nat := n / 2 ^ (52 : Nat) % 2048
  let fraction := n % 2 ^ (52 : Nat)
  if exponent = 2047 then
    if fraction = 0 then .infinite neg else .nan
  else if exponent = 0 then .finite neg fraction (-1074)
  else .finite neg (2 ^ (52 : Nat) + fraction) ((exponent : Int) - 1075)

def isNaN (x : Binary64) : Bool := x.view == .nan

def isFinite (x : Binary64) : Bool :=
  match x.view with
  | .finite .. => true
  | _ => false

/-- The quotient `num / den` rounded to an integer, a tie to the even one. -/
def divEven (num den : Nat) : Nat :=
  let n := num / den
  let r := num % den
  if 2 * r > den || (2 * r == den && n % 2 == 1) then n + 1 else n

/-- `num / den * 2 ^ (-q)` as a fraction. -/
def scaled (num den : Nat) (q : Int) : Nat × Nat :=
  if 0 ≤ q then (num, den * 2 ^ q.toNat) else (num * 2 ^ (-q).toNat, den)

/-- The exponent of the last place of the number nearest to `num / den`. -/
def lastPlace (num den : Nat) : Int :=
  let q : Int := Int.ofNat num.log2 - Int.ofNat den.log2 - 53
  let (a, b) := scaled num den q
  max (-1074) (if a / b < 2 ^ (53 : Nat) then q else q + 1)

/-- The number nearest to `num / den`, negated if `neg`; beyond the largest one, infinity. -/
def ofRatio (neg : Bool) (num den : Nat) : Binary64 :=
  if num = 0 then zero neg
  else
    let q := lastPlace num den
    let (a, b) := scaled num den q
    let m := divEven a b
    let (m, q) := if m = 2 ^ (53 : Nat) then (2 ^ (52 : Nat), q + 1) else (m, q)
    if m < 2 ^ (52 : Nat) then ofFields neg 0 m
    else if q + 1075 ≥ 2047 then infinity neg
    else ofFields neg (q + 1075).toNat (m - 2 ^ (52 : Nat))

def ofRational (num : Int) (den : Nat) : Binary64 := ofRatio (num < 0) num.natAbs den

def ofInt (i : Int) : Binary64 := ofRational i 1

/-- The exact value of `m * 2 ^ q` with its sign, as a fraction. -/
def ratio (neg : Bool) (m : Nat) (q : Int) : Int × Nat :=
  let (a, b) := scaled m 1 (-q)
  (if neg then -(a : Int) else a, b)

def neg (x : Binary64) : Binary64 := ⟨x.bits ^^^ 0x8000000000000000⟩

def add (x y : Binary64) : Binary64 :=
  match x.view, y.view with
  | .nan, _ | _, .nan => nan
  | .infinite a, .infinite b => if a = b then infinity a else nan
  | .infinite a, _ | _, .infinite a => infinity a
  | .finite a m p, .finite b n q =>
    let (u, v) := ratio a m p
    let (s, t) := ratio b n q
    let sum := u * t + s * v
    if sum = 0 then zero (a && b) else ofRational sum (v * t)

def sub (x y : Binary64) : Binary64 := x.add y.neg

def mul (x y : Binary64) : Binary64 :=
  match x.view, y.view with
  | .nan, _ | _, .nan => nan
  | .infinite a, .infinite b => infinity (a != b)
  | .infinite a, .finite b m _ | .finite b m _, .infinite a =>
    if m = 0 then nan else infinity (a != b)
  | .finite a m p, .finite b n q =>
    let (u, v) := ratio false m p
    let (s, t) := ratio false n q
    ofRatio (a != b) (u.natAbs * s.natAbs) (v * t)

def div (x y : Binary64) : Binary64 :=
  match x.view, y.view with
  | .nan, _ | _, .nan => nan
  | .infinite _, .infinite _ => nan
  | .infinite a, .finite b _ _ => infinity (a != b)
  | .finite a _ _, .infinite b => zero (a != b)
  | .finite a m p, .finite b n q =>
    if n = 0 then if m = 0 then nan else infinity (a != b)
    else
      let (u, v) := ratio false m p
      let (s, t) := ratio false n q
      ofRatio (a != b) (u.natAbs * t) (v * s.natAbs)

def floor (x : Binary64) : Binary64 :=
  match x.view with
  | .finite a m q =>
    let (u, v) := ratio a m q
    let n := u / (v : Int)
    if n = 0 then zero a else ofInt n
  | _ => x

/-- The nearest integer of a finite number, a tie away from zero. -/
def roundAway (x : Binary64) : Option Int :=
  match x.view with
  | .finite a m q =>
    let (u, v) := ratio false m q
    let n : Nat := (2 * u.natAbs + v) / (2 * v)
    some (if a then -(n : Int) else n)
  | _ => none

/-- The integer that is left when the places after the point are cut off, moved into `[lo, hi]`;
zero for what is not a number. -/
def toIntWithin (x : Binary64) (lo hi : Int) : Int :=
  match x.view with
  | .nan => 0
  | .infinite a => if a then lo else hi
  | .finite a m q =>
    let (u, v) := ratio false m q
    let n : Int := u / (v : Int)
    max lo (min hi (if a then -n else n))

def toInt? (x : Binary64) : Option Int :=
  match x.view with
  | .finite a m q =>
    let (u, v) := ratio a m q
    if u % (v : Int) = 0 then some (u / (v : Int)) else none
  | _ => none

def compareRatio (x y : Int × Nat) : Ordering := compare (x.1 * y.2) (y.1 * x.2)

def compare? (x y : Binary64) : Option Ordering :=
  match x.view, y.view with
  | .nan, _ | _, .nan => none
  | .infinite a, .infinite b =>
    some (if a = b then .eq else if a then .lt else .gt)
  | .infinite a, _ => some (if a then .lt else .gt)
  | _, .infinite b => some (if b then .gt else .lt)
  | .finite a m p, .finite b n q => some (compareRatio (ratio a m p) (ratio b n q))

/-- How an integer and a number compare by value; what is not a number counts as the smallest. -/
def compareInt (i : Int) (x : Binary64) : Ordering :=
  match x.view with
  | .nan => .gt
  | .infinite a => if a then .gt else .lt
  | .finite a m q => compareRatio (i, 1) (ratio a m q)

/-- The eight bytes of the number, the lowest first. -/
def toBytes (x : Binary64) : List UInt8 :=
  (List.range 8).map fun i => (x.bits >>> (UInt64.ofNat (8 * i))).toUInt8

/-- The number whose eight bytes are given, the lowest first. -/
def ofBytes (bs : List UInt8) : Binary64 :=
  ⟨bs.reverse.foldl (fun n b => n <<< 8 ||| b.toUInt64) 0⟩

/-- The number that a thirty-two bit floating point number stands for. -/
def ofBinary32 (bits : UInt32) : Binary64 :=
  let n := bits.toNat
  let neg := n / 2 ^ (31 : Nat) == 1
  let exponent : Nat := n / 2 ^ (23 : Nat) % 256
  let fraction := n % 2 ^ (23 : Nat)
  if exponent = 255 then if fraction = 0 then infinity neg else nan
  else
    let (m, q) : Nat × Int :=
      if exponent = 0 then (fraction, -149) else (2 ^ (23 : Nat) + fraction, (exponent : Int) - 150)
    let (a, b) := scaled m 1 (-q)
    ofRatio neg a b

example : ofInt 1 = ⟨0x3ff0000000000000⟩ := by decide
example : ofInt (2 ^ (63 : Nat) - 1) = ⟨0x43e0000000000000⟩ := by decide
example : (ofRatio false 1 10).bits = 0x3fb999999999999a := by decide
example : (zero true).neg = zero false := by decide

end Binary64

end TypedTables
