import TypedTables.Calendar.DateTime

/-!
# Timestamps as ISO-8601 text

The text of a timestamp is `YYYY-MM-DDTHH:MM:SS`, followed by a fraction of three, six or nine
digits if there is one. Years outside 0 to 9999 carry their sign; a leap second is written as second
60.
-/
namespace TypedTables

/-- The decimal digits of `n`, with zeros in front up to a width. -/
def paddedDigits (width n : Nat) : List Char :=
  let cs := Nat.toDigits 10 n
  List.replicate (width - cs.length) '0' ++ cs

def yearChars (year : Int) : List Char :=
  if 0 ≤ year && year ≤ 9999 then paddedDigits 4 year.toNat
  else (if year < 0 then '-' else '+') :: paddedDigits 4 year.natAbs

/-- A fraction of a second, given in nanoseconds. -/
def fractionChars (nano : Nat) : List Char :=
  if nano = 0 then []
  else if nano % 1000000 = 0 then '.' :: paddedDigits 3 (nano / 1000000)
  else if nano % 1000 = 0 then '.' :: paddedDigits 6 (nano / 1000)
  else '.' :: paddedDigits 9 nano

namespace DateTime

def isoChars (t : DateTime) : List Char :=
  yearChars t.date.year ++ '-' :: paddedDigits 2 t.date.month ++ '-' :: paddedDigits 2 t.date.day ++
    'T' :: paddedDigits 2 t.time.hour ++ ':' :: paddedDigits 2 t.time.minute ++
    ':' :: paddedDigits 2 (t.time.second + t.time.nano / 1000000000) ++
    fractionChars (t.time.nano % 1000000000)

def iso (t : DateTime) : String := String.ofList t.isoChars

end DateTime

end TypedTables
