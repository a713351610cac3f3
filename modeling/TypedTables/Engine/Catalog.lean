import TypedTables.Engine.Command

/-!
# Tables, indexes and databases

A table keeps its rows in increasing order of their rowids, or of their keys if it has no rowids. A
database lists its tables and indexes in the order of their creation, and a connection sees several
databases by name: `main`, `temp`, and those that were attached.
-/
namespace TypedTables.Engine

attribute [local instance (high)] instPowNat

/-- A name as names are compared: ASCII letters in lower case. -/
def folded (name : String) : List Char := name.toList.map Char.toLower

def sameName (a b : String) : Bool := folded a == folded b

structure TableColumn where
  name : String
  type : String
  affinity : Affinity
  collation : Collation
  notNull : Bool
  default : Stored
  deriving DecidableEq

/-- A condition that every row of a table satisfies. -/
structure Check where
  text : String
  condition : Expr Slot
  deriving DecidableEq

/-- The values of a column have to stand in a key column of another table of the same database. -/
structure Reference where
  column : Nat
  parent : String
  key : String
  /-- Whether this is checked at the end of the transaction only. -/
  deferred : Bool
  deriving DecidableEq

/-- A row. The rowid of a row of a table without rowids means nothing. -/
structure StoredRow where
  rowid : Int64
  values : List Stored
  deriving DecidableEq

/-- The values of a row, with the rowid behind them. -/
def StoredRow.cells (r : StoredRow) : List Stored := r.values ++ [.integer r.rowid]

structure StoredTable where
  name : String
  columns : List TableColumn
  /-- The column that is another name for the rowid. -/
  alias? : Option Nat
  /-- The key by which rows without rowids are kept; none if there are rowids. -/
  key? : Option (List Nat)
  strict : Bool
  checks : List Check
  references : List Reference
  /-- The statement that made the table. -/
  text : String
  rows : List StoredRow
  deriving DecidableEq

/-- An index. The one that stands for a constraint has no statement. -/
structure Index where
  name : String
  table : String
  columns : List Nat
  unique : Bool
  text : Option String
  /-- The key of a table without rowids is kept in the table itself. -/
  listed : Bool
  deriving DecidableEq

namespace StoredTable

def rowidNames : List String := ["rowid", "oid", "_rowid_"]

def position? (t : StoredTable) (name : String) : Option Nat :=
  t.columns.findIdx? fun c => sameName c.name name

/-- The slot behind the columns, where the rowid stands. -/
def rowidSlot (t : StoredTable) : Slot := ⟨t.alias?.getD t.columns.length, .integer, .binary⟩

def slotAt (t : StoredTable) (position : Nat) : Slot where
  position
  affinity := (t.columns[position]?.map TableColumn.affinity).getD .blob
  collation := (t.columns[position]?.map TableColumn.collation).getD .binary

def slot? (t : StoredTable) (name : String) : Option Slot :=
  match t.position? name with
  | some i => some (t.slotAt i)
  | none =>
    if t.key?.isNone && rowidNames.any (sameName name) then some t.rowidSlot else none

def slotName (t : StoredTable) (s : Slot) : String :=
  (t.columns[s.position]?.map TableColumn.name).getD "rowid"

def qualified (t : StoredTable) (position : Nat) : String :=
  t.name ++ "." ++ t.slotName (t.slotAt position)

def project (positions : List Nat) (r : StoredRow) : List Stored :=
  positions.map fun i => r.values[i]?.getD .null

def collations (t : StoredTable) (positions : List Nat) : List Collation :=
  positions.map fun i => (t.slotAt i).collation

/-- How two lists of values compare, the first difference counting. -/
def compareLists : List Collation → List Stored → List Stored → Ordering
  | ks, a :: as, b :: bs =>
    match (ks.headD .binary).compare a b with
    | .eq => compareLists ks.tail as bs
    | o => o
  | _, [], [] => .eq
  | _, [], _ :: _ => .lt
  | _, _ :: _, [] => .gt

/-- The positions of the columns whose values order the rows of the table. -/
def keyPositions (t : StoredTable) : List Nat := t.key?.getD [t.rowidSlot.position]

def compareRows (t : StoredTable) (r s : StoredRow) : Ordering :=
  match t.key? with
  | some key => compareLists (t.collations key) (project key r) (project key s)
  | none => compare r.rowid.toInt s.rowid.toInt

def place (t : StoredTable) (r : StoredRow) : List StoredRow → List StoredRow
  | [] => [r]
  | s :: ss => if t.compareRows r s == .lt then r :: s :: ss else s :: place t r ss

def add (t : StoredTable) (r : StoredRow) : StoredTable := { t with rows := t.place r t.rows }

def remove (t : StoredTable) (r : StoredRow) : StoredTable :=
  { t with rows := t.rows.filter fun s => t.compareRows r s != .eq }

/-- The row that has the place of the given one. -/
def rowAt? (t : StoredTable) (r : StoredRow) : Option StoredRow :=
  t.rows.find? fun s => t.compareRows r s == .eq

/-- The greatest number from a bound downwards that is the rowid of none of the rows, which come
with falling rowids. -/
def freeBelow (bound : Int64) : List StoredRow → Int64
  | [] => bound
  | r :: rows => if r.rowid == bound then freeBelow (bound - 1) rows else bound

/-- The rowid of a row that is given none: the one that follows the greatest, or a free one below if
the greatest is the last there is. -/
def nextRowid (t : StoredTable) : Int64 :=
  match t.rows.getLast? with
  | none => 1
  | some r =>
    if r.rowid.toInt < 2 ^ (63 : Nat) - 1 then r.rowid + 1 else freeBelow r.rowid t.rows.reverse

end StoredTable

inductive Object where
  | table (t : StoredTable)
  | index (i : Index)
  deriving DecidableEq

/-- The tables and indexes of a database, in the order of their creation. -/
structure Database where
  objects : List Object
  deriving DecidableEq

namespace Database

def empty : Database := ⟨[]⟩

def tables (d : Database) : List StoredTable :=
  d.objects.filterMap fun
    | .table t => some t
    | .index _ => none

def indexes (d : Database) : List Index :=
  d.objects.filterMap fun
    | .index i => some i
    | .table _ => none

def table? (d : Database) (name : String) : Option StoredTable :=
  d.tables.find? fun t => sameName t.name name

def index? (d : Database) (name : String) : Option Index :=
  d.indexes.find? fun i => sameName i.name name

/-- The indexes of a table, the newest first. -/
def indexesOf (d : Database) (table : String) : List Index :=
  (d.indexes.filter fun i => sameName i.table table).reverse

def append (d : Database) (objects : List Object) : Database := ⟨d.objects ++ objects⟩

def setTable (d : Database) (t : StoredTable) : Database :=
  ⟨d.objects.map fun
    | .table u => .table (if sameName u.name t.name then t else u)
    | o => o⟩

/-- What the catalog says about an object: kind, name, table, page, statement. -/
def describe (o : Object) (page : Nat) : List Stored :=
  match o with
  | .table t =>
    [.text "table", .text t.name, .text t.name, .integer (Int64.ofNat page), .text t.text]
  | .index i =>
    [.text "index", .text i.name, .text i.table, .integer (Int64.ofNat page),
      (i.text.map Stored.text).getD .null]

/-- The catalog of the database as a table with the given name. -/
def catalog (d : Database) (name : String) : StoredTable :=
  let column (name type : String) : TableColumn :=
    ⟨name, type, Affinity.ofTypeName type, .binary, false, .null⟩
  let listed := d.objects.filter fun
    | .index i => i.listed
    | .table _ => true
  { name
    columns := [column "type" "TEXT", column "name" "TEXT", column "tbl_name" "TEXT",
      column "rootpage" "INT", column "sql" "TEXT"]
    alias? := none
    key? := none
    strict := false
    checks := []
    references := []
    text := ""
    rows := listed.zipIdx.map fun (o, i) => ⟨Int64.ofNat (i + 1), describe o (i + 2)⟩ }

end Database

/-- The databases of a connection by name: `main`, `temp` and the attached ones. -/
structure Catalog where
  databases : List (String × Database)
  deriving DecidableEq

/-- Where a table is: the position of its database, and its name. -/
structure Place where
  database : Nat
  table : String
  deriving DecidableEq

namespace Catalog

def ofMain (d : Database) : Catalog := ⟨[("main", d), ("temp", .empty)]⟩

def temporary : Nat := 1

def database? (c : Catalog) (name : String) : Option Nat :=
  c.databases.findIdx? fun d => sameName d.1 name

def database (c : Catalog) (i : Nat) : Database := (c.databases[i]?.map (·.2)).getD .empty

def databaseName (c : Catalog) (i : Nat) : String := (c.databases[i]?.map (·.1)).getD ""

def set (c : Catalog) (i : Nat) (d : Database) : Catalog :=
  ⟨c.databases.set i (c.databaseName i, d)⟩

/-- The positions of the databases in the order in which a name without a database is looked up. -/
def lookupOrder (c : Catalog) : List Nat := 1 :: 0 :: (List.range c.databases.length).drop 2

/-- The names of the catalog of a database: those of the temporary one have names of their own. -/
def catalogNames (i : Nat) : List String :=
  if i = temporary then ["sqlite_temp_master", "sqlite_temp_schema"]
  else ["sqlite_master", "sqlite_schema"]

/-- Whether a name in the database at a position is that of its catalog. -/
def isCatalog (i : Nat) (name : String) (qualified : Bool) : Bool :=
  (catalogNames i).any (sameName name) || (qualified && (catalogNames 0).any (sameName name))

def tableIn? (c : Catalog) (i : Nat) (name : String) (qualified : Bool) : Option StoredTable :=
  match (c.database i).table? name with
  | some t => some t
  | none => if isCatalog i name qualified then some ((c.database i).catalog name) else none

/-- The table that a name refers to, and the position of its database. -/
def find? (c : Catalog) (name : ObjectName) : Option (Nat × StoredTable) :=
  match name.database with
  | some (d, _) => do
    let i ← c.database? d
    let t ← c.tableIn? i name.name true
    return (i, t)
  | none => c.lookupOrder.findSome? fun i => (c.tableIn? i name.name false).map (i, ·)

def table? (c : Catalog) (p : Place) : Option StoredTable := c.tableIn? p.database p.table true

def indexesAt (c : Catalog) (p : Place) : List Index := (c.database p.database).indexesOf p.table

def setTable (c : Catalog) (i : Nat) (t : StoredTable) : Catalog :=
  c.set i ((c.database i).setTable t)

end Catalog

end TypedTables.Engine
