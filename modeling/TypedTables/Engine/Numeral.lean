import TypedTables.Number.Decimal
import TypedTables.Value

/-!
# Numbers in texts

How the engine reads a number from a text: an optional sign, digits with at most one point among
them, and an exponent. A number without point and exponent is an integer if it fits sixty-four bits;
every other one is a real.
-/
namespace TypedTables.Engine

attribute [local instance (high)] instPowNat

def isSpace (c : Char) : Bool :=
  c == ' ' || c == '\t' || c == '\n' || c == '\r' || c == '\x0b' || c == '\x0c'

def natOfDigits (cs : List Char) : Nat :=
  cs.foldl (fun n c => n * 10 + (c.toNat - '0'.toNat)) 0

/-- The number `digits * 10 ^ exponent`, nearest to it; too small is zero and too large is infinite
without computing the power. -/
def realOfDecimal (neg : Bool) (digits : List Char) (exponent : Int) : Binary64 :=
  let significant := digits.dropWhile (· == '0')
  let power := exponent + significant.length
  if significant.isEmpty || power < -400 then .zero neg
  else if 400 < power then .infinity neg
  else Decimal.toBinary64 neg ⟨natOfDigits significant, exponent⟩

/-- An integer, or the nearest real if it does not fit. -/
def storedOfInt (neg : Bool) (digits : List Char) : Stored :=
  let n : Int := if neg then -(natOfDigits digits : Int) else natOfDigits digits
  if -2 ^ (63 : Nat) ≤ n ∧ n < 2 ^ (63 : Nat) then .integer (Int64.ofInt n)
    else .real (realOfDecimal neg digits 0)

def exponentAt (cs : List Char) : Option (Int × List Char) :=
  match cs with
  | e :: cs =>
    if e == 'e' || e == 'E' then
      let (neg, cs) := match cs with
        | '-' :: cs => (true, cs)
        | '+' :: cs => (false, cs)
        | cs => (false, cs)
      let ds := cs.takeWhile Char.isDigit
      if ds.isEmpty then none
      else some (if neg then -(natOfDigits ds : Int) else natOfDigits ds, cs.drop ds.length)
    else none
  | [] => none

/-- The number without a sign at the start of the characters, and what follows it. -/
def unsignedAt (neg : Bool) (cs : List Char) : Option (Stored × List Char) :=
  let whole := cs.takeWhile Char.isDigit
  let rest := cs.drop whole.length
  let (fraction, rest, pointed) := match rest with
    | '.' :: more =>
      let fraction := more.takeWhile Char.isDigit
      (fraction, more.drop fraction.length, true)
    | rest => ([], rest, false)
  if whole.isEmpty && fraction.isEmpty then none
  else
    match exponentAt rest with
    | some (e, rest) =>
      some (.real (realOfDecimal neg (whole ++ fraction) (e - fraction.length)), rest)
    | none =>
      if pointed then some (.real (realOfDecimal neg (whole ++ fraction) (-fraction.length)), rest)
      else some (storedOfInt neg whole, rest)

/-- The number at the start of the characters after blanks, and what follows it. -/
def numberAt (cs : List Char) : Option (Stored × List Char) :=
  match cs.dropWhile isSpace with
  | '-' :: cs => unsignedAt true cs
  | '+' :: cs => unsignedAt false cs
  | cs => unsignedAt false cs

/-- The number that a text is, with blanks around it at most. -/
def numberOfText? (s : String) : Option Stored :=
  match numberAt s.toList with
  | some (n, rest) => if rest.all isSpace then some n else none
  | none => none

example : numberOfText? " 12 " = some (.integer 12) := by decide +kernel
example : numberOfText? "9223372036854775808" = some (.real ⟨0x43e0000000000000⟩) := by
  decide +kernel
example : numberOfText? "-.5e1" = some (.real ⟨0xc014000000000000⟩) := by decide +kernel
example : numberOfText? "1x" = none := by decide +kernel

end TypedTables.Engine
