import TypedTables.Calendar.DateTime
import TypedTables.Number.Binary64

/-!
# Timestamps as seconds with a fraction

The seconds since 1970-01-01T00:00:00 as a floating point number: the whole seconds and the fraction
are rounded one by one and so is their sum.
-/
namespace TypedTables.DateTime

attribute [local instance (high)] instPowNat

def nanosPerSecond : Binary64 := Binary64.ofInt 1000000000

def toUnixReal (t : DateTime) : Binary64 :=
  (Binary64.ofInt t.unixSeconds).add ((Binary64.ofInt t.time.nano).div nanosPerSecond)

/-- The timestamp of so many seconds since 1970-01-01T00:00:00, to the nearest nanosecond. -/
def ofUnixReal? (x : Binary64) : Option DateTime :=
  let seconds := x.floor
  let nano := (((x.sub seconds).mul nanosPerSecond).roundAway.getD 0)
  ofUnix? (seconds.toIntWithin (-2 ^ (63 : Nat)) (2 ^ (63 : Nat) - 1)) (min nano.toNat 999999999)

end TypedTables.DateTime
