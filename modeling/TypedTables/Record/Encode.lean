import TypedTables.Record.Basic
import TypedTables.Record.Params

/-!
# From records to parameters

A record binds every column of its schema; a column it does not report is NULL. A row binds only the
columns that it has.
-/
namespace TypedTables

namespace Schema

/-- Binds the columns one after the other, taking their values out of the row. -/
def encodeColumns : List Column → Row → Params → Except Error (Params × Row)
  | [], row, params => .ok (params, row)
  | c :: cs, row, params => do
    let stored ← c.encode ((row.get? c.name).getD .null)
    encodeColumns cs (row.erase c.name) (params.push c.name stored)

/-- Checks a record and binds each of its columns. -/
def encodeRecord {ρ : Type} (s : Schema) (T : RecordType ρ) (record : ρ) : Except Error Params := do
  T.validate record
  let (params, rest) ← encodeColumns s.columns (T.toRow record) .empty
  match rest.names with
  | name :: _ => .error (.schema (.undeclaredField name))
  | [] => .ok params

/-- Binds values, given by column, one after the other; `mark` stands before the names. -/
def encodeEntries (s : Schema) (mark : String) :
    List (String × Value) → Params → Except Error Params
  | [], params => .ok params
  | (name, v) :: rest, params => do
    let c ← s.column name
    let stored ← c.encode v
    encodeEntries s mark rest (params.push (mark ++ name) stored)

/-- Binds the columns that a row has; `mark` stands before the names. -/
def encodeRow (s : Schema) (row : Row) (mark : String) : Except Error Params :=
  s.encodeEntries mark row.entries .empty

end Schema

end TypedTables
