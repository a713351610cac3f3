import TypedTables.Calendar.Date

/-!
# Times of day and timestamps

A timestamp is a date and a time of day, without a time zone. The nanoseconds of a time may go
beyond one second: such a time lies in the leap second after its second.
-/
namespace TypedTables

structure TimeOfDay where
  hour : Nat
  minute : Nat
  second : Nat
  nano : Nat
  hour_lt : hour < 24
  minute_lt : minute < 60
  second_lt : second < 60
  nano_lt : nano < 2000000000
  deriving DecidableEq

def TimeOfDay.of? (hour minute second nano : Nat) : Option TimeOfDay :=
  if h : hour < 24 ∧ minute < 60 ∧ second < 60 ∧ nano < 2000000000 then
    some ⟨hour, minute, second, nano, h.1, h.2.1, h.2.2.1, h.2.2.2⟩
  else none

def TimeOfDay.seconds (t : TimeOfDay) : Nat := t.hour * 3600 + t.minute * 60 + t.second

/-- The time that lies `n` seconds and `nano` nanoseconds after midnight. -/
def TimeOfDay.ofSeconds? (n nano : Nat) : Option TimeOfDay :=
  of? (n / 3600) (n / 60 % 60) (n % 60) nano

structure DateTime where
  date : Date
  time : TimeOfDay
  deriving DecidableEq

namespace DateTime

def of? (year : Int) (month day hour minute second nano : Nat) : Option DateTime := do
  some ⟨← Date.of? year month day, ← TimeOfDay.of? hour minute second nano⟩

def unixSeconds (t : DateTime) : Int := t.date.dayNumber * 86400 + t.time.seconds

/-- The timestamp `n` seconds and `nano` nanoseconds after 1970-01-01T00:00:00. -/
def ofUnix? (n : Int) (nano : Nat) : Option DateTime := do
  some ⟨← Date.ofDayNumber? (n / 86400), ← TimeOfDay.ofSeconds? (n % 86400).toNat nano⟩

/-- The parts from the year down to the nanoseconds. -/
def parts (t : DateTime) : List Int :=
  [t.date.year, t.date.month, t.date.day, t.time.hour, t.time.minute, t.time.second, t.time.nano]

end DateTime

end TypedTables
