import TypedTables.Calendar.DateTime
import TypedTables.Text.Blank

/-!
# Reading timestamps

A timestamp is read in two forms: with `T` between the date and the time, where blanks may stand
before each sign, or with blanks in that place. When neither form fits, what is wrong with the
second one counts.
-/
namespace TypedTables

attribute [local instance (high)] instPowNat

inductive TimestampFault where
  | tooShort
  | invalid
  | outOfRange
  | tooLong
  deriving DecidableEq, Repr

def TimestampFault.words : TimestampFault → String
  | .tooShort => "premature end of input"
  | .invalid => "input contains invalid characters"
  | .outOfRange => "input is out of range"
  | .tooLong => "trailing input"

namespace DateTime

abbrev Reader (α : Type) := List Char → Except TimestampFault (α × List Char)

/-- The number that digits stand for. -/
def digitsValue (cs : List Char) : Nat := cs.foldl (fun n c => n * 10 + (c.toNat - '0'.toNat)) 0

/-- Reads a number of at most `width` digits. -/
def natural (width : Option Nat) (cs : List Char) : Except TimestampFault (Nat × List Char) :=
  match cs with
  | [] => .error .tooShort
  | c :: _ =>
    if !c.isDigit then .error .invalid
    else
      let ds := (width.elim cs cs.take).takeWhile Char.isDigit
      let n := digitsValue ds
      if n < 2 ^ (63 : Nat) then .ok (n, cs.drop ds.length) else .error .outOfRange

def twoDigits (least greatest : Nat) (cs : List Char) :
    Except TimestampFault (Nat × List Char) := do
  let (n, rest) ← natural (some 2) (Text.trimStart cs)
  if least ≤ n && n ≤ greatest then .ok (n, rest) else .error .outOfRange

/-- Reads a year: four digits, or any number of digits after a sign. -/
def year (cs : List Char) : Except TimestampFault (Int × List Char) := do
  let (y, rest) : Int × List Char ←
    match Text.trimStart cs with
    | '-' :: r => do
      let (n, rest) ← natural none r
      .ok (-(n : Int), rest)
    | '+' :: r => do
      let (n, rest) ← natural none r
      .ok ((n : Int), rest)
    | r => do
      let (n, rest) ← natural (some 4) r
      .ok ((n : Int), rest)
  if -2 ^ (31 : Nat) ≤ y && y < 2 ^ (31 : Nat) then .ok (y, rest) else .error .outOfRange

def sign (c : Char) : List Char → Except TimestampFault (List Char)
  | [] => .error .tooShort
  | d :: rest => if d = c then .ok rest else .error .invalid

/-- Reads a fraction of a second, as nanoseconds; digits after the ninth one do not count. -/
def fraction : Reader Nat
  | '.' :: cs => do
    let (n, rest) ← natural (some 9) cs
    let count := cs.length - rest.length
    .ok (n * 10 ^ (9 - count), rest.dropWhile Char.isDigit)
  | cs => .ok (0, cs)

inductive Form where
  | withT
  | withBlank
  deriving DecidableEq, Repr

/-- Skips the blanks that may stand before a sign. -/
def Form.gap : Form → List Char → List Char
  | .withT, cs => Text.trimStart cs
  | .withBlank, cs => cs

/-- Reads what stands between the date and the time. -/
def Form.divider : Form → List Char → Except TimestampFault (List Char)
  | .withT, cs => sign 'T' (Text.trimStart cs)
  | .withBlank, cs => .ok (Text.trimStart cs)

def readAs (form : Form) (cs : List Char) : Except TimestampFault DateTime := do
  let (y, rest) ← year cs
  let rest ← sign '-' (form.gap rest)
  let (month, rest) ← twoDigits 1 12 rest
  let rest ← sign '-' (form.gap rest)
  let (day, rest) ← twoDigits 1 31 rest
  let rest ← form.divider rest
  let (hour, rest) ← twoDigits 0 23 rest
  let rest ← sign ':' (form.gap rest)
  let (minute, rest) ← twoDigits 0 59 rest
  let rest ← sign ':' (form.gap rest)
  let (second, rest) ← twoDigits 0 60 rest
  let (nano, rest) ← fraction rest
  if !(form.gap rest).isEmpty then .error .tooLong
  else
    let (second, nano) := if second = 60 then (59, nano + 1000000000) else (second, nano)
    match of? y month day hour minute second nano with
    | some t => .ok t
    | none => .error .outOfRange

def parse (s : String) : Except TimestampFault DateTime :=
  match readAs .withT s.toList with
  | .ok t => .ok t
  | .error _ => readAs .withBlank s.toList

def ofText? (s : String) : Option DateTime := (parse s).toOption

end DateTime

end TypedTables
