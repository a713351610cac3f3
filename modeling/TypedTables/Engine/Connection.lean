import TypedTables.Engine.Interface
import TypedTables.Engine.Query
import TypedTables.Engine.Reader
import TypedTables.Engine.Reference
import TypedTables.Engine.Settings

/-!
# Connections

A connection runs statements, one after the other, on the databases that it sees. A statement is
read, its names are looked up, its parameters are bound, and then it runs. Inside a transaction the
state at its start is kept, so that it can be brought back.
-/
namespace TypedTables.Engine

structure Connection where
  catalog : Catalog
  /-- The state at the start of the open transaction. -/
  saved : Option Catalog
  /-- How often references are violated by the open transaction that are checked at its end. -/
  pending : Nat
  settings : Settings
  storage : Storage
  readOnly : Bool
  deriving DecidableEq

def dropBytes : Nat → List Char → List Char
  | 0, cs => cs
  | _, [] => []
  | n + 1, c :: cs => dropBytes (n + 1 - c.utf8Size) cs
termination_by _ cs => cs.length

/-- The values bound to the names of a plan; each name has to occur in it. -/
def bind (p : Plan) (params : Params) : Except Fault (String → Stored) :=
  match params.names.find? fun n => !p.parameters.contains (":" ++ n) with
  | some n => .error (.unknownParameter (":" ++ n))
  | none =>
    .ok fun name =>
      match params.get? (String.ofList (name.toList.drop 1)) with
      | some (.real x) => if name.startsWith ":" && !x.isNaN then .real x else .null
      | some v => if name.startsWith ":" then v else .null
      | none => .null

namespace Connection

def new (d : Database) (storage : Storage) (readOnly : Bool) : Connection :=
  ⟨.ofMain d, none, 0, .new storage, storage, readOnly⟩

def inTransaction (c : Connection) : Bool := c.saved.isSome

/-- A plan whose references can be checked, if they are checked at all. -/
def admitted (c : Connection) (p : Plan) : Except Fault Plan :=
  match if c.settings.foreignKeys then p.referenceFault? c.catalog else none with
  | some fault => .error fault
  | none => .ok p

/-- Reads a statement and looks up its names. -/
def plan (c : Connection) (text : String) : Except Fault Plan :=
  match readStatement text with
  | .error complaint => .error (complaint.toFault text)
  | .ok (command, _) => do
    let p ← (Plan.of c.catalog command).mapError (Complaint.toFault · text)
    c.admitted p

theorem admitted_of_free {c : Connection} {p : Plan} (h : p.referenceFault? c.catalog = none) :
    c.admitted p = .ok p := by
  rw [admitted, h, ite_self]

theorem plan_of {c : Connection} {text : String} {command : Command} {next : Option Nat} {p : Plan}
    (hread : readStatement text = .ok (command, next)) (hplan : Plan.of c.catalog command = .ok p)
    (h : c.admitted p = .ok p) : c.plan text = .ok p := by
  rw [plan, hread]
  dsimp only
  rw [hplan]
  exact h

/-- The names of the columns that a statement answers. -/
def prepare (c : Connection) (text : String) : Except Fault (List String) :=
  (c.plan text).map Plan.columnNames

def mayWrite (c : Connection) (database : Nat) : Bool :=
  !c.settings.queryOnly && (!c.readOnly || database == Catalog.temporary)

/-- Brings back the state at the start of the transaction; databases attached since then stay. -/
def restored (c : Connection) (saved : Catalog) : Catalog :=
  ⟨saved.databases ++ c.catalog.databases.drop saved.databases.length⟩

/-- Ends the transaction, as if nothing had happened since its start. -/
def undo (c : Connection) : Connection :=
  match c.saved with
  | some saved => { c with catalog := c.restored saved, saved := none, pending := 0 }
  | none => c

/-- Whether references are violated that may be as long as the transaction is open. -/
def isUnsettled (c : Connection) : Bool := c.settings.foreignKeys && 0 < c.pending

/-- The connection after a statement has changed the catalog. -/
def advance (c : Connection) (after : Catalog) : Connection :=
  { c with
    catalog := after
    pending := if c.settings.foreignKeys then
        c.pending + after.violations true - c.catalog.violations true
      else c.pending }

/-- Whether a statement may not change the catalog like that. It may not violate references that are
checked at its end, nor any others if it is a transaction by itself. -/
def forbids (c : Connection) (after : Catalog) : Bool :=
  c.settings.foreignKeys && c.catalog.violations false < after.violations false ||
    !c.inTransaction && (c.advance after).isUnsettled

/-- Settles a statement that changed a table: its rows are answered unless it was refused. -/
def settle (c : Connection) (params : String → Stored) (p : Place) (returned : List NamedOutput)
    (before : StoredTable) (changed : Changed) : Except Fault Answer × Connection :=
  let catalog := c.catalog.setTable p.database (changed.settle before).table
  if c.forbids catalog then (.error .foreignKeyFailed, c)
  else
    let c := c.advance catalog
    match changed.stop with
    | none =>
      let rows := if returned.isEmpty then [] else
        changed.rows.map fun r => valuesOf params returned 0 r.cells
      (.ok ⟨rows, changed.count⟩, c)
    | some (fault, conflict) => (.error fault, if conflict = .rollback then c.undo else c)

def matching (t : StoredTable) (condition : Option (Expr Slot)) (params : String → Stored) :
    List StoredRow :=
  match condition with
  | none => t.rows
  | some e => t.rows.filter fun r => e.holds params r.cells

def change (c : Connection) (p : Place) (params : String → Stored) (returned : List NamedOutput)
    (f : StoredTable → Changed) : Except Fault Answer × Connection :=
  match c.catalog.table? p with
  | none => (.error (.noSuchTable p.table), c)
  | some t =>
    if c.mayWrite p.database then c.settle params p returned t (f t) else (.error .readOnly, c)

/-- Makes tables and indexes, if that is allowed and the stored rows satisfy the indexes. -/
def createObjects (c : Connection) (i : Nat) (objects : List Object) :
    Except Fault Answer × Connection :=
  let d := c.catalog.database i
  let violated := objects.findSome? fun
    | .index x =>
      match d.table? x.table with
      | some t => if t.satisfies x then none
          else some (Fault.uniqueFailed (x.columns.map t.qualified))
      | none => none
    | .table _ => none
  if !c.mayWrite i then (.error .readOnly, c)
  else
    match violated with
    | some fault => (.error fault, c)
    | none => (.ok (.changed 0), { c with catalog := c.catalog.set i (d.append objects) })

def integrityReport (tables : List StoredTable) : List (List Stored) :=
  let faulty := tables.filter fun t => !t.isSound
  if faulty.isEmpty then [[.text "ok"]]
  else faulty.map fun t => [.text s!"constraint failed in {t.name}"]

/-- Runs an integrity check on all tables or on one. -/
def integrityCheck (c : Connection) : Option Stored → Except Fault (List (List Stored))
  | some (.text name) =>
    match c.catalog.find? ⟨none, name, 0⟩ with
    | some (_, t) => .ok (integrityReport [t])
    | none => .error (.noSuchTable name)
  | _ => .ok (integrityReport (c.catalog.databases.flatMap fun d => d.2.tables))

def pragma (c : Connection) (name : String) (argument : Option Stored) :
    Except Fault Answer × Connection :=
  let answer (s : Settings) : Answer :=
    ⟨((s.read? c.storage name).map fun v => [v]).toList, 0⟩
  if sameName name "integrity_check" then
    ((c.integrityCheck argument).map fun rows => ⟨rows, 0⟩, c)
  else
    match argument with
    | none => (.ok (answer c.settings), c)
    | some v =>
      if sameName name "foreign_keys" && c.inTransaction then (.ok (.changed 0), c) else
      let (settings, answered) := c.settings.write c.storage name v
      if settings.kept ≠ c.settings.kept && c.readOnly then (.error .readOnly, c)
      else if sameName name "synchronous" && c.inTransaction then
        (.error (.misuse "Safety level may not be changed inside a transaction"), c)
      else (.ok (if answered then answer settings else .changed 0), { c with settings })

def execute (c : Connection) (params : String → Stored) : Plan → Except Fault Answer × Connection
  | .nothing => (.error (.misuse "not an error"), c)
  | .present => (.ok (.changed 0), c)
  | .createObjects i objects => c.createObjects i objects
  | .insert p conflict targets rows returned =>
    let given := rows.map fun row => targets.zip (row.map fun e => e.eval params [])
    c.change p params returned fun t =>
      StoredTable.insertRows (c.catalog.indexesAt p) conflict
        c.settings.ignoreChecks given (.start t)
  | .select q =>
    ((q.rows (q.source.bind c.catalog.table?) params).map fun rows => ⟨rows, 0⟩, c)
  | .update p conflict set condition returned =>
    c.change p params returned fun t =>
      StoredTable.updateRows (c.catalog.indexesAt p) conflict c.settings.ignoreChecks
        (fun r => set.map fun (i, e) => (i, e.eval params r.cells)) (matching t condition params)
        (.start t)
  | .delete p condition returned =>
    c.change p params returned fun t => t.deleteRows (matching t condition params)
  | .begin =>
    if c.inTransaction then (.error .transactionOpen, c)
    else (.ok (.changed 0), { c with saved := some c.catalog })
  | .commit =>
    if !c.inTransaction then (.error (.noTransaction "commit"), c)
    else if c.isUnsettled then (.error .foreignKeyFailed, c)
    else (.ok (.changed 0), { c with saved := none })
  | .rollback =>
    if c.inTransaction then (.ok (.changed 0), c.undo) else (.error (.noTransaction "rollback"), c)
  | .pragma name argument => c.pragma name argument

/-- Runs the first statement of a text. -/
def run (c : Connection) (text : String) (params : Params) : Except Fault Answer × Connection :=
  match c.plan text with
  | .error fault => (.error fault, c)
  | .ok plan =>
    match bind plan params with
    | .error fault => (.error fault, c)
    | .ok bound => c.execute bound plan

/-- Runs the statements of a text one after the other, at most so many, until one is refused. -/
def runAll : Nat → String → Connection → Except Fault Unit × Connection
  | 0, _, c => (.ok (), c)
  | n + 1, text, c =>
    let rest (c : Connection) : Option Nat → Except Fault Unit × Connection
      | some offset =>
        let text := String.ofList (dropBytes offset text.toList)
        if text.isEmpty then (.ok (), c) else runAll n text c
      | none => (.ok (), c)
    match readStatement text with
    | .error complaint => (.error (complaint.toFault text), c)
    | .ok (.nothing, next) => rest c next
    | .ok (_, next) =>
      match c.run text .empty with
      | (.error fault, c) => (.error fault, c)
      | (.ok _, c) => rest c next

/-- Runs the statements of a text one after the other until one is refused. -/
def runBatch (c : Connection) (text : String) : Except Fault Unit × Connection :=
  runAll (text.length + 1) text c

/-- The integer in the first column of the first row that a statement answers. -/
def queryInteger (c : Connection) (text : String) : Except Fault Int64 × Connection :=
  match c.prepare text, c.run text .empty with
  | .ok names, (.ok answer, c) =>
    let first : Option Stored := answer.rows.head?.map fun row => row.head?.getD .null
    match first with
    | none => (.error .noRows, c)
    | some (.integer i) => (.ok i, c)
    | some v => (.error (.columnType v.storageClass 0 (names.head?.getD "")), c)
  | _, (.error fault, c) => (.error fault, c)
  | .error fault, (.ok _, c) => (.error fault, c)

/-- The most databases that can be attached. -/
def greatestAttached : Nat := 10

def attach (c : Connection) (name : String) : Except Fault Unit × Connection :=
  if greatestAttached + 2 ≤ c.catalog.databases.length then (.error .tooManyDatabases, c)
  else if (c.catalog.database? name).isSome then (.error (.databaseInUse name), c)
  else (.ok (), { c with catalog := ⟨c.catalog.databases ++ [(name, .empty)]⟩ })

def interface : Interface Connection where
  prepare text c := (c.prepare text, c)
  run text params c := c.run text params
  inTransaction := inTransaction

end Connection

end TypedTables.Engine
