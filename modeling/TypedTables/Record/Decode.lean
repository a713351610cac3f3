import TypedTables.Record.Basic

/-!
# From results to records

A layout says for declared columns at which position of a result row their values stand. A record
has a slot for every column of the schema; a row has one for every position whose name is a declared
column.
-/
namespace TypedTables

/-- Where the values of columns stand in a result row. -/
abbrev RowLayout := List (Column × Option Nat)

namespace RowLayout

/-- The layout of records: each column stands where its name first occurs after `skip` positions. -/
def forRecord (s : Schema) (names : List String) (skip : Nat) : RowLayout :=
  s.columns.map fun c => (c, ((names.drop skip).findIdx? (· == c.name)).map (· + skip))

/-- The layout of rows: each position with the name of a column holds that column. -/
def forRow (s : Schema) (names : List String) : RowLayout :=
  names.zipIdx.filterMap fun (name, i) => (s.column? name).map fun c => (c, some i)

def decodeSlot (values : List Stored) : Column × Option Nat → Except Error Value
  | (c, some i) => (c.decode (values[i]?.getD .null)).mapError Error.whileDecoding
  | (c, none) => if c.type.optional then .ok .null else .error (.resultLacks c.name)

/-- Reads the slots one after the other; of two for the same column the later one counts. -/
def decodeInto (values : List Stored) : RowLayout → Row → Except Error Row
  | [], row => .ok row
  | slot :: slots, row => do
    let v ← decodeSlot values slot
    decodeInto values slots (row.insert slot.1.name v)

def decodeRow (layout : RowLayout) (values : List Stored) : Except Error Row :=
  decodeInto values layout .empty

def decodeRecord {ρ : Type} (T : RecordType ρ) (layout : RowLayout) (values : List Stored) :
    Except Error ρ := do
  let row ← decodeRow layout values
  let record ← (T.ofRow row).mapError Error.whileDecoding
  (T.validate record).mapError Error.whileDecoding
  .ok record

end RowLayout

end TypedTables
