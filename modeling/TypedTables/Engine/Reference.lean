import TypedTables.Engine.Plan

/-!
# References between tables

A value other than NULL in a column that refers to another table has to stand in a key column of
that table. A reference counts as violated once for each row whose value stands nowhere.
-/
namespace TypedTables.Engine

/-- Whether a value stands in a column, as that column compares and stores values. -/
def StoredTable.hasValue (t : StoredTable) (position : Nat) (v : Stored) : Bool :=
  let slot := t.slotAt position
  t.rows.any fun r =>
    slot.collation.compare (convert slot.affinity v) (r.values[position]?.getD .null) == .eq

namespace Database

/-- The position of a column that is a key by itself. -/
def keyColumn? (d : Database) (t : StoredTable) (name : String) : Option Nat :=
  (t.position? name).filter fun i =>
    t.alias? == some i || (d.indexesOf t.name).any fun x => x.unique && x.columns == [i]

/-- Whether what a reference asks for is there. -/
def refersTo (d : Database) (r : Reference) (v : Stored) : Bool :=
  match d.table? r.parent with
  | none => false
  | some parent => (d.keyColumn? parent r.key).any fun i => parent.hasValue i v

/-- The rows of a table that violate one of its references. -/
def orphans (d : Database) (t : StoredTable) (r : Reference) : List StoredRow :=
  t.rows.filter fun row =>
    let v := row.values[r.column]?.getD .null
    v ≠ .null && !d.refersTo r v

/-- The rows that violate references of the tables: those that are checked at the end of the
transaction, or the others. -/
def violations (d : Database) (deferred : Bool) : List StoredRow :=
  d.tables.flatMap fun t => (t.references.filter (·.deferred == deferred)).flatMap (d.orphans t)

/-- The fault of a reference that names no table or no key of one. -/
def referenceFault? (d : Database) (name : String) (t : StoredTable) (r : Reference) :
    Option Fault :=
  match d.table? r.parent with
  | none => some (.noSuchTable (name ++ "." ++ r.parent))
  | some parent =>
    if (d.keyColumn? parent r.key).isSome then none
    else some (.foreignKeyMismatch t.name r.parent)

end Database

namespace Catalog

def violations (c : Catalog) (deferred : Bool) : Nat :=
  (c.databases.flatMap fun d => d.2.violations deferred).length

/-- The first fault among the references from the table at a place and those to it, as far as the
statement that changes the table looks at them. -/
def referenceFault? (c : Catalog) (p : Place) (asked offered : Reference → Bool) : Option Fault :=
  let d := c.database p.database
  let own := (d.table? p.table).toList.flatMap fun t => (t.references.filter asked).map (t, ·)
  let others := d.tables.flatMap fun u =>
    (u.references.filter fun r => sameName r.parent p.table && offered r).map (u, ·)
  (own ++ others).findSome? fun (t, r) => d.referenceFault? (c.databaseName p.database) t r

end Catalog

/-- The first fault of a reference that a plan has to look at. A new row looks at a reference to its
table only if the check may come late. -/
def Plan.referenceFault? (c : Catalog) : Plan → Option Fault
  | .insert p _ _ rows _ => c.referenceFault? p (fun _ => true) fun r =>
    r.deferred || 1 < rows.length
  | .update p _ set _ _ =>
    let columns := set.map (·.1)
    let key (r : Reference) : Option Nat := (c.table? p).bind fun t => t.position? r.key
    c.referenceFault? p (fun r => columns.contains r.column) fun r => (key r).any columns.contains
  | .delete p _ _ => c.referenceFault? p (fun _ => true) fun _ => true
  | _ => none

end TypedTables.Engine
