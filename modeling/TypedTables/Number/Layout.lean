import TypedTables.Number.Decimal

/-!
# How a number is written

A `Layout` fixes where positional notation ends, how an exponent is written and what stands for the
numbers without digits. The three layouts of the library are that of JSON texts, that of messages
and that of the engine when it turns a real into text.
-/
namespace TypedTables

attribute [local instance (high)] instPowNat

structure Layout where
  /-- Positional notation is used for numbers of at least `10 ^ leastPower`. -/
  leastPower : Option Int
  /-- Positional notation is used for numbers below `10 ^ (greatestPower + 1)`. -/
  greatestPower : Option Int
  /-- A number without a fraction is followed by `.0`. -/
  pointZero : Bool
  /-- With an exponent, too, a single digit is followed by `.0`. -/
  pointZeroWithExponent : Bool
  /-- The least number of digits of an exponent. -/
  exponentWidth : Nat
  /-- The number of digits that are kept; none keeps as many as the number needs. -/
  precision : Option Nat
  /-- Whether the sign of a negative zero is written. -/
  signedZero : Bool
  infinite : String
  notANumber : String

namespace Layout

def padLeft (n : Nat) (cs : List Char) : List Char := List.replicate (n - cs.length) '0' ++ cs

/-- Positional notation of `digits * 10 ^ exponent`. -/
def positional (pointZero : Bool) (cs : List Char) (exponent : Int) : List Char :=
  if 0 ≤ exponent then
    cs ++ List.replicate exponent.toNat '0' ++ (if pointZero then ['.', '0'] else [])
  else
    let places := (-exponent).toNat
    let cs := padLeft (places + 1) cs
    cs.take (cs.length - places) ++ '.' :: cs.drop (cs.length - places)

/-- Notation with one digit before the point and an exponent, whose sign is always written. -/
def scientific (pointZero : Bool) (width : Nat) (cs : List Char) (power : Int) : List Char :=
  let head := cs.take 1 ++
    (match cs.drop 1 with
    | [] => if pointZero then ['.', '0'] else []
    | rest => '.' :: rest)
  head ++ 'e' :: (if power < 0 then '-' else '+') :: padLeft width (Nat.toDigits 10 power.natAbs)

def decimal (l : Layout) (d : Decimal) : List Char :=
  let cs := d.digitChars
  let power := d.exponent + cs.length - 1
  if l.leastPower.all (· ≤ power) && l.greatestPower.all (power ≤ ·) then
    positional l.pointZero cs d.exponent
  else scientific l.pointZeroWithExponent l.exponentWidth cs power

def write (l : Layout) (x : Binary64) : String :=
  match x.view with
  | .nan => l.notANumber
  | .infinite neg => if neg then "-" ++ l.infinite else l.infinite
  | .finite neg m q =>
    if m = 0 then
      let cs := positional l.pointZero ['0'] 0
      String.ofList (if neg && l.signedZero then '-' :: cs else cs)
    else
      let d := match l.precision with
        | none => Binary64.shortest m q
        | some n => Binary64.nearestDigits n m q
      let cs := l.decimal d
      String.ofList (if neg then '-' :: cs else cs)

/-- JSON texts: the shortest digits, positional from `10 ^ -5` to below `10 ^ 16`. -/
def json : Layout := ⟨some (-5), some 15, true, false, 1, none, true, "null", "null"⟩

/-- Messages: the shortest digits, never an exponent. -/
def plain : Layout := ⟨none, none, false, false, 1, none, true, "inf", "NaN"⟩

/-- The engine: fifteen digits, positional from `10 ^ -4` to below `10 ^ 15`. -/
def fifteen : Layout := ⟨some (-4), some 14, true, true, 2, some 15, false, "Inf", ""⟩

example : json.write (Binary64.ofInt (10 ^ (15 : Nat))) = "1000000000000000.0" := by decide +kernel
example : json.write (Binary64.ofInt (10 ^ (16 : Nat))) = "1e+16" := by decide +kernel
example : json.write (Binary64.ofRatio true 3 20000000) = "-1.5e-7" := by decide +kernel
example : plain.write (Binary64.ofRatio false 1 1000000) = "0.000001" := by decide +kernel
example : fifteen.write (Binary64.ofInt (10 ^ (15 : Nat))) = "1.0e+15" := by decide +kernel
example : fifteen.write (Binary64.ofRatio false 1 3) = "0.333333333333333" := by decide +kernel

end Layout

end TypedTables
