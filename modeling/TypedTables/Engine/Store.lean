import TypedTables.Engine.Catalog

/-!
# Storing rows

A row goes into a table only if it satisfies the constraints of the table. They are checked in a
fixed order, and the conflict clause says what happens at the first one that is violated: the
statement is refused, the row is left out, or the rows in the way are removed.
-/
namespace TypedTables.Engine

inductive Stop where
  /-- The row is left out. -/
  | skip
  /-- The statement is refused. -/
  | refuse (fault : Fault) (conflict : Conflict)
  deriving DecidableEq

/-- The end of a check that found a violation for which no rows can be removed. -/
def Stop.of (conflict : Conflict) (fault : Fault) : Stop :=
  match conflict with
  | .ignore => .skip
  | .replace => .refuse fault .abort
  | conflict => .refuse fault conflict

structure Storing where
  conflict : Conflict
  /-- The row that it takes the place of. -/
  old : Option StoredRow
  /-- The columns that are given a value. -/
  changed : Nat → Bool
  /-- Whether CHECK constraints are left out. -/
  unchecked : Bool

namespace StoredTable

/-- The value that a column gets for NULL. -/
def notNull (t : StoredTable) (how : Storing) (c : TableColumn) (i : Nat) (v : Stored) :
    Except Stop Stored :=
  if v ≠ .null || !c.notNull || t.alias? == some i || !how.changed i then .ok v
  else if how.conflict = .replace && c.default ≠ .null then .ok c.default
  else .error (Stop.of how.conflict (.notNullFailed (t.qualified i)))

/-- The value that a column stores. A strict table refuses what its type does not take. -/
def fit (t : StoredTable) (c : TableColumn) (i : Nat) (v : Stored) : Except Stop Stored :=
  let v := convert c.affinity v
  let fits := match v, c.affinity with
    | .null, _ => true
    | .integer _, .integer | .real _, .real | .text _, .text => true
    | .blob _, .blob => true
    | _, _ => sameName c.type "ANY"
  if t.strict && !fits then
    .error (.refuse (.cannotStore v.storageClass (String.ofList (c.type.toList.map Char.toUpper))
      (t.qualified i)) .abort)
  else .ok v

def mapColumns (t : StoredTable) (f : TableColumn → Nat → Stored → Except Stop Stored)
    (values : List Stored) : Except Stop (List Stored) :=
  (t.columns.zip values).zipIdx.mapM fun ((c, v), i) => f c i v

/-- Whether a condition refers to a column that is given a value. -/
def concerns (how : Storing) (e : Expr Slot) : Bool :=
  how.old.isNone || e.columns.any fun s => how.changed s.position

def check (t : StoredTable) (how : Storing) (r : StoredRow) : Except Stop Unit :=
  match t.checks.find? fun c =>
    concerns how c.condition &&
      truth? (c.condition.eval (fun _ => .null) r.cells) == some false with
  | some c => .error (Stop.of how.conflict (.checkFailed c.text))
  | none => .ok ()

/-- The table without the row in the way, if the conflict clause says so. -/
def clear (t : StoredTable) (how : Storing) (columns : List String) (inTheWay : Option StoredRow) :
    Except Stop StoredTable :=
  match inTheWay with
  | none => .ok t
  | some r =>
    if how.conflict = .replace then .ok (t.remove r)
    else .error (Stop.of how.conflict (.uniqueFailed columns))

/-- Whether a row is the one whose place is taken. -/
def isOld (t : StoredTable) (how : Storing) (r : StoredRow) : Bool :=
  how.old.any fun old => t.compareRows old r == .eq

/-- Removes or refuses another row with the same rowid. -/
def clearRowid (t : StoredTable) (how : Storing) (r : StoredRow) : Except Stop StoredTable :=
  if t.key?.isSome then .ok t
  else
    t.clear how [t.qualified t.rowidSlot.position] <| t.rows.find? fun s =>
      s.rowid == r.rowid && !t.isOld how s

/-- Removes or refuses another row with the same values in the columns of an index. -/
def clearIndex (how : Storing) (r : StoredRow) (t : StoredTable) (i : Index) :
    Except Stop StoredTable :=
  let values := project i.columns r
  if !i.unique || values.contains .null then .ok t
  else
    t.clear how (i.columns.map t.qualified) <| t.rows.find? fun s =>
      compareLists (t.collations i.columns) values (project i.columns s) == .eq && !t.isOld how s

/-- Stores a row, in the place of the old one if there is one; answers it as it was stored. -/
def store (t : StoredTable) (indexes : List Index) (how : Storing) (r : StoredRow) :
    Except Stop (StoredTable × StoredRow) := do
  let values ← t.mapColumns (t.notNull how) r.values
  let checked := !how.unchecked && t.checks.any fun c => concerns how c.condition
  let values ← if !checked then .ok values else do
    let values ← t.mapColumns t.fit values
    t.check how { r with values }
    pure values
  let t ← t.clearRowid how r
  let values ← t.mapColumns t.fit values
  let r := { r with values }
  let t ← indexes.foldlM (clearIndex how r) t
  let t := match how.old with
    | some old => t.remove old
    | none => t
  .ok (t.add r, r)

end StoredTable

/-- The integer that a value is as a rowid: numbers in texts count, but nothing is rounded. -/
def rowidOf? (v : Stored) : Option Int64 :=
  match whole (numeric v) with
  | .integer i => some i
  | _ => none

/-- What became of a statement that changes rows: the state it leaves, the number of changed rows,
the rows as they were stored or deleted, and the fault that ended it early. -/
structure Changed where
  table : StoredTable
  count : Nat
  rows : List StoredRow
  stop : Option (Fault × Conflict)

def Changed.start (t : StoredTable) : Changed := ⟨t, 0, [], none⟩

/-- Counts in a row that was stored, or the reason why it was not. -/
def Changed.next (c : Changed) : Except Stop (StoredTable × StoredRow) → Changed
  | .ok (t, r) => { c with table := t, count := c.count + 1, rows := c.rows ++ [r] }
  | .error .skip => c
  | .error (.refuse fault conflict) => { c with stop := some (fault, conflict) }

/-- The state and the count that stay: a refused statement leaves what it did before only if it
fails. -/
def Changed.settle (c : Changed) (before : StoredTable) : Changed :=
  match c.stop with
  | none | some (_, .fail) => c
  | some _ => { c with table := before }

namespace StoredTable

/-- The row that is made of given values: the others get their defaults, and the rowid the value of
its column, or else the next free one. -/
def newRow (t : StoredTable) (given : List (Nat × Stored)) : Except Stop StoredRow := do
  let value (i : Nat) (default : Stored) : Stored :=
    ((given.find? (·.1 == i)).map (·.2)).getD default
  let values := t.columns.zipIdx.map fun (c, i) => value i c.default
  if t.key?.isSome then .ok ⟨0, values⟩
  else
    let position := t.rowidSlot.position
    let rowid ← match value position .null with
      | .null => .ok t.nextRowid
      | v =>
        match rowidOf? v with
        | some rowid => .ok rowid
        | none => .error (.refuse .datatypeMismatch .abort)
    .ok ⟨rowid, values.set position (.integer rowid)⟩

/-- Inserts rows one after the other, until one is refused. -/
def insertRows (indexes : List Index) (conflict : Conflict) (unchecked : Bool) :
    List (List (Nat × Stored)) → Changed → Changed
  | [], c => c
  | given :: rest, c =>
    let c := c.next do
      let r ← c.table.newRow given
      c.table.store indexes ⟨conflict, none, fun _ => true, unchecked⟩ r
    match c.stop with
    | some _ => c
    | none => insertRows indexes conflict unchecked rest c

/-- The row with values in the place of some of its own. -/
def changedRow (t : StoredTable) (set : List (Nat × Stored)) (r : StoredRow) :
    Except Stop StoredRow := do
  let values := r.values.zipIdx.map fun (v, i) => ((set.find? (·.1 == i)).map (·.2)).getD v
  if t.key?.isSome then .ok { r with values }
  else
    let position := t.rowidSlot.position
    match (set.find? (·.1 == position)).map (·.2) with
    | none => .ok { r with values }
    | some v =>
      match rowidOf? v with
      | some rowid => .ok ⟨rowid, values.set position (.integer rowid)⟩
      | none => .error (.refuse .datatypeMismatch .abort)

/-- Whether an index has to be looked at when columns are set. -/
def affects (t : StoredTable) (set : List Nat) (i : Index) : Bool :=
  i.columns.any set.contains || set.contains t.rowidSlot.position ||
    (t.key?.getD []).any set.contains

/-- Changes rows one after the other until one is refused. A row that is gone by then is left out,
and one that another has taken the place of is changed as it stands. -/
def updateRows (indexes : List Index) (conflict : Conflict) (unchecked : Bool)
    (set : StoredRow → List (Nat × Stored)) : List StoredRow → Changed → Changed
  | [], c => c
  | r :: rest, c =>
    match c.table.rowAt? r with
    | none => updateRows indexes conflict unchecked set rest c
    | some r =>
      let values := set r
      let columns := values.map (·.1)
      let how : Storing := ⟨conflict, some r, columns.contains, unchecked⟩
      let c := c.next do
        let s ← c.table.changedRow values r
        c.table.store (indexes.filter (c.table.affects columns)) how s
      match c.stop with
      | some _ => c
      | none => updateRows indexes conflict unchecked set rest c

def deleteRows (t : StoredTable) (rows : List StoredRow) : Changed :=
  ⟨rows.foldl remove t, rows.length, rows, none⟩

def satisfies (t : StoredTable) (i : Index) : Bool :=
  !i.unique || (t.rows.map (project i.columns)).zipIdx.all fun (a, n) =>
    a.contains .null || ((t.rows.map (project i.columns)).drop (n + 1)).all fun b =>
      compareLists (t.collations i.columns) a b != .eq

/-- Whether the rows of the table satisfy its conditions. -/
def isSound (t : StoredTable) : Bool :=
  t.rows.all fun r =>
    (t.columns.zip r.values).zipIdx.all (fun ((c, v), i) =>
      !c.notNull || v ≠ .null || t.alias? == some i) &&
    t.checks.all fun c => truth? (c.condition.eval (fun _ => .null) r.cells) != some false

end StoredTable

end TypedTables.Engine
