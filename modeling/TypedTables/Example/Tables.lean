import TypedTables.Engine.Connection
import TypedTables.Example.Records
import TypedTables.Table.Basic

/-!
# Example tables

Tables of numbers and of items, as the program sees them and as the engine stores them; the columns
of a table of entries; and tables with columns that are named like what the library adds to the
names of parameters.
-/
namespace TypedTables.Example

open Engine

def number : RecordType Int64 where
  name := "number"
  declarations := [(Declaration.of "id" .integer).constraint "PRIMARY KEY"]
  toRow n := .ofList [("id", toValue n)]
  ofRow := reading (Row.take Int64 "id")
  validate _ := .ok ()

def numbers : Table Int64 where
  type := number
  schema := {
    columns := [⟨"id", ⟨.integer, false, .integer⟩, some "PRIMARY KEY", by decide⟩]
    columns_ne_nil := List.cons_ne_nil _ _
    names_nodup := by decide }
  name := ⟨none, "numbers", nofun, by decide⟩
  bootstrap := none

/-- The table of numbers with an index, both to be made unless they are there. -/
def indexedNumbers : Table Int64 :=
  { numbers with
    bootstrap := some ⟨"numbers", { TableOptions.none with ifNotExists := true },
      [⟨"numbers_by_id", [("id", some .descending)], true, true⟩]⟩ }

def emptyAt : Connection := .new .empty .memory false

/-- The stored numbers -5, 0 and 5. -/
def storedNumbers : StoredTable where
  name := "numbers"
  columns := [⟨"id", "INTEGER", .integer, .binary, false, .null⟩]
  alias? := some 0
  key? := none
  strict := false
  checks := []
  references := []
  text := "CREATE TABLE numbers (id INTEGER PRIMARY KEY)"
  rows := [⟨-5, [.integer (-5)]⟩, ⟨0, [.integer 0]⟩, ⟨5, [.integer 5]⟩]

def numbersAt : Connection := .new ⟨[.table storedNumbers]⟩ .memory false

/-- A table with the same columns that was made without a key, so that one of its numbers is
missing. -/
def keylessNumbers : StoredTable :=
  { storedNumbers with
    alias? := none
    text := "CREATE TABLE numbers (id INTEGER)"
    rows := [⟨1, [.integer 7]⟩, ⟨2, [.null]⟩, ⟨3, [.integer 9]⟩] }

def keylessNumbersAt : Connection := .new ⟨[.table keylessNumbers]⟩ .memory false

def items : Table Item where
  type := item
  schema := {
    columns := [⟨"id", ⟨.integer, false, .integer⟩, none, by decide⟩,
      ⟨"label", ⟨.text, true, .text⟩, none, by decide⟩]
    columns_ne_nil := List.cons_ne_nil _ _
    names_nodup := by decide }
  name := ⟨none, "items", nofun, by decide⟩
  bootstrap := none

def storedItems (rows : List StoredRow) : StoredTable where
  name := "items"
  columns := [⟨"id", "INTEGER", .integer, .binary, false, .null⟩,
    ⟨"label", "TEXT", .text, .binary, false, .null⟩]
  alias? := none
  key? := none
  strict := false
  checks := []
  references := []
  text := "CREATE TABLE items (id INTEGER, label TEXT)"
  rows

/-- The stored item 1, which has no label. -/
def unlabelled : StoredRow := ⟨1, [.integer 1, .null]⟩

def itemsAt (rows : List StoredRow) : Connection := .new ⟨[.table (storedItems rows)]⟩ .memory false

/-- Labels by themselves, none of them so far. -/
def storedLabels : StoredTable where
  name := "labels"
  columns := [⟨"label", "TEXT", .text, .binary, false, .null⟩]
  alias? := none
  key? := none
  strict := false
  checks := []
  references := []
  text := "CREATE TABLE labels (label TEXT UNIQUE)"
  rows := []

/-- Items whose labels have to be listed at the end of a transaction. -/
def listedItems : StoredTable :=
  { storedItems [unlabelled] with
    references := [⟨1, "labels", "label", true⟩]
    text := "CREATE TABLE items (id INTEGER, " ++
      "label TEXT REFERENCES labels(label) DEFERRABLE INITIALLY DEFERRED)" }

def listedItemsAt : Connection :=
  .new ⟨[.table storedLabels,
    .index ⟨"sqlite_autoindex_labels_1", "labels", [0], true, none, true⟩,
    .table listedItems]⟩ .memory false

def entries : Schema where
  columns := [⟨"id", ⟨.integer, false, .integer⟩, none, by decide⟩,
    ⟨"kind", ⟨.text, false, .text⟩, none, by decide⟩]
  columns_ne_nil := List.cons_ne_nil _ _
  names_nodup := by decide

/-- Rows for the numbers, of which the second one has a text. -/
def numberThenText : List Row := [.insert .empty "id" (.int 7), .insert .empty "id" (.text "x")]

def entriesName : TableName := ⟨none, "entries", nofun, by decide⟩

/-- Rows of two integers. One column is named like the mark and the other. -/
def shadowing : Table Row where
  type := {
    name := "shadowing"
    declarations := [.of "a" .integer, .of "__where_a" .integer]
    toRow := id
    ofRow := .ok
    validate := fun _ => .ok () }
  schema := {
    columns := [⟨"a", ⟨.integer, false, .integer⟩, none, by decide⟩,
      ⟨"__where_a", ⟨.integer, false, .integer⟩, none, by decide⟩]
    columns_ne_nil := List.cons_ne_nil _ _
    names_nodup := by decide }
  name := ⟨none, "t", nofun, by decide⟩
  bootstrap := none

/-- Rows of two integers. One column is named like the parameter of a limit. -/
def limiting : Table Row where
  type := ofRows "limiting" [.of "a" .integer, .of "__limit" .integer]
  schema := {
    columns := [⟨"a", ⟨.integer, false, .integer⟩, none, by decide⟩,
      ⟨"__limit", ⟨.integer, false, .integer⟩, none, by decide⟩]
    columns_ne_nil := List.cons_ne_nil _ _
    names_nodup := by decide }
  name := ⟨none, "t", nofun, by decide⟩
  bootstrap := none

def stampedColumns : Schema where
  columns := [⟨"n", ⟨.integer, false, .integer⟩, none, by decide⟩,
    ⟨"r", ⟨.real, true, .timestamp .unixReal⟩, none, by decide⟩,
    ⟨"i", ⟨.integer, true, .timestamp .unixInt⟩, none, by decide⟩,
    ⟨"t", ⟨.text, true, .timestamp .iso8601⟩, none, by decide⟩]
  columns_ne_nil := List.cons_ne_nil _ _
  names_nodup := by decide

/-- The last month of a year. -/
theorem december_mem : 1 ≤ 12 ∧ 12 ≤ 12 := by decide

/-- The last timestamp of the calendar, to a nanosecond. -/
def lastTimestamp : DateTime :=
  ⟨⟨262142, 12, 31, by decide, december_mem, by decide⟩,
    ⟨23, 59, 59, 999999999, by decide, by decide, by decide, by decide⟩⟩

def lastStamp (column : String) : Row :=
  (Keyed.empty.insert "n" (.int 1)).insert column (.timestamp lastTimestamp)

def oneInteger (column : String) (i : Int64) : Row := Keyed.empty.insert column (.int i)

/-- Columns that are named like keywords of a SELECT. -/
def keywordNamed : Schema where
  columns := [⟨"DISTINCT", ⟨.integer, false, .integer⟩, none, by decide⟩,
    ⟨"FROM", ⟨.integer, false, .integer⟩, none, by decide⟩]
  columns_ne_nil := List.cons_ne_nil _ _
  names_nodup := by decide

/-- The name of a table that is named so too. -/
def keywordName : TableName := ⟨none, "FROM", nofun, by decide⟩

end TypedTables.Example
