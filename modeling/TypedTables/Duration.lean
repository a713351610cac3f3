
/-!
# Lengths of time

A length of time is a number of nanoseconds, at most `2 ^ 64` seconds. In messages it is written in
the largest unit of which it has at least one, without zeros at the end of the fraction.
-/
namespace TypedTables

attribute [local instance (high)] instPowNat

/-- A length of time: seconds that fit sixty-four bits, and nanoseconds below one second. -/
structure Duration where
  seconds : UInt64
  nanos : Nat
  nanos_lt : nanos < 1000000000
  deriving DecidableEq

namespace Duration

/-- The duration of seconds and nanoseconds; whole seconds among the nanoseconds are carried
over. -/
def ofParts (seconds nanos : Nat) : Duration :=
  ⟨UInt64.ofNat (seconds + nanos / 1000000000), nanos % 1000000000, Nat.mod_lt _ (by decide)⟩

def ofMillis (n : Nat) : Duration := ofParts (n / 1000) (n % 1000 * 1000000)

def toNanos (d : Duration) : Nat := d.seconds.toNat * 1000000000 + d.nanos

/-- The whole milliseconds of a duration, at most `2 ^ 64 - 1`. -/
def toMillis (d : Duration) : Nat := min (d.toNanos / 1000000) (2 ^ (64 : Nat) - 1)

/-- A number of units with a fraction of `places` digits, without zeros at its end. -/
def decimalChars (whole fraction places : Nat) : List Char :=
  let ds := Nat.toDigits 10 fraction
  let ds := List.replicate (places - ds.length) '0' ++ ds
  let kept := (ds.reverse.dropWhile (· == '0')).reverse
  Nat.toDigits 10 whole ++ (if kept.isEmpty then [] else '.' :: kept)

def text (d : Duration) : String :=
  if 0 < d.seconds then String.ofList (decimalChars d.seconds.toNat d.nanos 9) ++ "s"
  else if 1000000 ≤ d.nanos then
    String.ofList (decimalChars (d.nanos / 1000000) (d.nanos % 1000000) 6) ++ "ms"
  else if 1000 ≤ d.nanos then
    String.ofList (decimalChars (d.nanos / 1000) (d.nanos % 1000) 3) ++ "µs"
  else String.ofList (decimalChars d.nanos 0 0) ++ "ns"

end Duration

end TypedTables
