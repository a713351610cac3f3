import TypedTables.Batch
import TypedTables.Table.Create

/-!
# Inserting

A record is stored with all columns of the table, a row only with those that it has. Many of them
are stored in one transaction, or none.
-/
namespace TypedTables.Table

variable {σ ρ : Type} (t : Table ρ) (E : Engine.Interface σ)

/-- What was computed without the engine, as a part of building. -/
def checked {α : Type} (r : Except Error α) : Building α := ExceptT.mk (pure r)

def insertStatement (columns : ColumnChoice) (conflict : Option Conflict) : Building String :=
  statement (.insert ⟨columns, conflict, none⟩)

/-- Inserts a record; answers the number of inserted rows. -/
def insert (record : ρ) (conflict : Option Conflict) : Building (Job σ Nat) := do
  let text ← insertStatement .all conflict
  let params ← checked (t.schema.encodeRecord t.type record)
  return E.change text params

def insertMany (records : List ρ) (conflict : Option Conflict) : Building (Job σ Nat) := do
  let text ← insertStatement .all conflict
  return E.batch text (t.schema.encodeRecord t.type) records

/-- Inserts the columns of a row; the others get their defaults. -/
def insertRow (row : Row) : Building (Job σ Nat) := do
  let columns ← checked (t.schema.orderedNames row)
  let text ← insertStatement (.only columns) none
  let params ← checked (t.schema.encodeRow row "")
  return E.change text params

/-- Checks that a row has the expected columns and no others; `what` tells which row it is. -/
def expectColumns (row : Row) (expected : List String) (what : String) : Except Error Unit :=
  let wanted := (Keyed.ofList (expected.map fun name => (name, ()))).names
  if row.names = wanted then .ok () else .error (.statement (.keysDiffer what row.names wanted))

/-- The parameters of one of several rows that have the same columns. -/
def encodeAlike (columns : List String) (row : Row) : Except Error Params := do
  expectColumns row columns "insert_mappings row"
  t.schema.encodeRow row ""

/-- Inserts rows in one transaction; the first one says which columns all of them have. -/
def insertRows (rows : List Row) : Building (Job σ Nat) :=
  match rows with
  | [] => return pure 0
  | first :: _ => do
    let columns ← checked (t.schema.orderedNames first)
    let text ← insertStatement (.only columns) none
    return E.batch text (t.encodeAlike columns) rows

end TypedTables.Table
