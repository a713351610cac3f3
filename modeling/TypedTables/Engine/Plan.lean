import TypedTables.Engine.Store

/-!
# Looking up names

A plan is a statement whose names were looked up in a catalog: it says at which places values are
read and written, and how its result columns are named. Making a plan finds every fault of a
statement that does not depend on the stored rows.
-/
namespace TypedTables.Engine

inductive Output where
  | value (e : Expr Slot)
  /-- The number of rows. -/
  | count
  deriving DecidableEq

structure NamedOutput where
  name : String
  output : Output
  deriving DecidableEq

structure Query where
  distinct : Bool
  outputs : List NamedOutput
  /-- The table that is read; without one there is a single row without values. -/
  source : Option Place
  condition : Option (Expr Slot)
  orderBy : List (SortKey Slot)
  limit : Option (Expr Slot)
  deriving DecidableEq

inductive Plan where
  | nothing
  /-- The statement makes something that is there already, which is not an error. -/
  | present
  | createObjects (database : Nat) (objects : List Object)
  | insert (place : Place) (conflict : Conflict) (targets : List Nat)
      (rows : List (List (Expr Slot)))
      (returned : List NamedOutput)
  | select (query : Query)
  | update (place : Place) (conflict : Conflict) (set : List (Nat × Expr Slot))
      (condition : Option (Expr Slot)) (returned : List NamedOutput)
  | delete (place : Place) (condition : Option (Expr Slot)) (returned : List NamedOutput)
  | begin
  | commit
  | rollback
  | pragma (name : String) (argument : Option Stored)
  deriving DecidableEq

/-- A complaint that points at no byte of the text. -/
def plain (fault : Fault) : Complaint := ⟨fault, none⟩

/-! ### Expressions -/

/-- The expression that a name stands for where it is no column: a text between double quotes, or
one of the words for truth. -/
def loneWord? (c : ColumnRef) : Option (Expr Slot) :=
  if c.table.isSome then none
  else if c.quoted then some (.literal (.text c.name))
  else if sameName c.name "true" then some (.literal (.integer 1))
  else if sameName c.name "false" then some (.literal (.integer 0))
  else none

def unknownColumn (c : ColumnRef) : Complaint :=
  ⟨.noSuchColumn (match c.table with
    | some t => t ++ "." ++ c.name
    | none => c.name), some c.offset⟩

/-- The expression that a name stands for: a column of the table, or else a named result column. -/
def lookUp (t : Option StoredTable) (names : List (String × Expr Slot)) (c : ColumnRef) :
    Except Complaint (Expr Slot) :=
  let slot := t.bind fun t =>
    if c.table.all (sameName t.name) then t.slot? c.name else none
  let named := if c.table.isSome then none else (names.find? fun n => sameName n.1 c.name).map (·.2)
  match slot.map Expr.column <|> named <|> loneWord? c with
  | some e => .ok e
  | none => .error (unknownColumn c)

def allColumns (t : Option StoredTable) : Except Complaint (List NamedOutput) :=
  match t with
  | none => .error (plain (.misuse "no tables specified"))
  | some t => .ok (t.columns.zipIdx.map fun (c, i) =>
      ⟨c.name, .value (.column ⟨i, c.affinity, c.collation⟩)⟩)

def outputsOf (t : Option StoredTable) : ResultSpec → Except Complaint (List NamedOutput)
  | .all => allColumns t
  | .count name => .ok [⟨name, .count⟩]
  | .value e name text => do
    let e ← e.resolve (lookUp t [])
    let default := match e, t with
      | .column s, some t => t.slotName s
      | _, _ => text
    .ok [⟨name.getD default, .value e⟩]

def outputs (t : Option StoredTable) (specs : List ResultSpec) :
    Except Complaint (List NamedOutput) := do
  let lists ← specs.mapM (outputsOf t)
  .ok lists.flatten

def resolve? (f : ColumnRef → Except Complaint (Expr Slot)) :
    Option (Expr ColumnRef) → Except Complaint (Option (Expr Slot))
  | none => .ok none
  | some e => do
    let e ← e.resolve f
    .ok (some e)

/-- The values of the result columns that have names of their own. -/
def givenNames (specs : List ResultSpec) (f : ColumnRef → Except Complaint (Expr Slot)) :
    List (String × Expr Slot) :=
  specs.filterMap fun
    | .value e (some name) _ => (e.resolve f).toOption.map (name, ·)
    | _ => none

/-- A sort key: the number of a result column, its name, or an expression. -/
def sortKeyOf (t : Option StoredTable) (names : List (String × Expr Slot))
    (outputs : List NamedOutput) (k : SortKey ColumnRef) : Except Complaint (SortKey Slot) := do
  let named := match k.key with
    | .column c =>
      if c.table.isSome then none else (names.find? fun n => sameName n.1 c.name).map (·.2)
    | .literal (.integer i) =>
      match outputs[(i.toInt - 1).toNat]? with
      | some ⟨_, .value e⟩ => if 1 ≤ i.toInt then some e else none
      | _ => none
    | _ => none
  match named with
  | some e => .ok ⟨e, k.direction⟩
  | none =>
    let e ← k.key.resolve (lookUp t names)
    .ok ⟨e, k.direction⟩

/-! ### Tables -/

def ObjectName.text (n : ObjectName) : String :=
  match n.database with
  | some (d, _) => d ++ "." ++ n.name
  | none => n.name

def requireTable (c : Catalog) (name : ObjectName) : Except Complaint (Nat × StoredTable) :=
  match c.find? name with
  | some found => .ok found
  | none => .error (plain (.noSuchTable name.text))

def requireWritable (c : Catalog) (name : ObjectName) : Except Complaint (Nat × StoredTable) := do
  let (i, t) ← requireTable c name
  if Catalog.isCatalog i t.name true then
    .error (plain (.misuse s!"table {t.name} may not be modified"))
  else .ok (i, t)

/-- The position of the database that a name names; without one, of the given one. -/
def requireDatabase (c : Catalog) (default : Nat) : Option (String × Nat) → Except Complaint Nat
  | none => .ok default
  | some (name, offset) =>
    match c.database? name with
    | some i => .ok i
    | none => .error ⟨.unknownDatabase name, some offset⟩

/-- Refuses names that are kept for the engine. -/
def checkObjectName (name : String) : Except Complaint Unit :=
  if "sqlite_".toList.isPrefixOf (folded name) then
    .error (plain (.misuse s!"object name reserved for internal use: {name}"))
  else .ok ()

def strictTypes : List String := ["INT", "INTEGER", "REAL", "TEXT", "BLOB", "ANY"]

def columnOf (table : String) (strict inKey : Bool) (spec : ColumnSpec) :
    Except Complaint TableColumn := do
  if strict && spec.type.isEmpty then
    .error (plain (.missingDatatype (table ++ "." ++ spec.name)))
  else if strict && !strictTypes.any (sameName spec.type) then
    .error (plain (.unknownDatatype (table ++ "." ++ spec.name) spec.type))
  else
    let default ← match spec.default with
      | none => .ok Stored.null
      | some e => do
        let e ← e.resolve (lookUp none [])
        pure (e.eval (fun _ => .null) [])
    let affinity := if strict && sameName spec.type "ANY" then .blob
      else Affinity.ofTypeName spec.type
    let collation ← match spec.collation with
      | none => .ok Collation.binary
      | some name =>
        match Collation.ofName? name with
        | some k => .ok k
        | none => .error (plain (.noSuchCollation name))
    .ok ⟨spec.name, spec.type, affinity, collation, spec.notNull || inKey, default⟩

def duplicate? : List String → Option String
  | [] => none
  | n :: ns => if ns.any (sameName n) then (ns.find? (sameName n)) else duplicate? ns

/-- Whether a column of a key is another name for the rowid. -/
def isAlias (withoutRowid : Bool) (c : ColumnSpec) : Bool :=
  !withoutRowid && c.primaryKey && !c.descending && sameName c.type "INTEGER"

/-- The indexes that stand for the constraints of columns, in the order in which they are made: the
key of a table without rowids is made last if it is an integer. -/
def constraintIndexes (table : String) (withoutRowid : Bool) (columns : List ColumnSpec) :
    List Index :=
  let index (listed : Bool) (i : Nat) (n : Nat) : Index :=
    ⟨"sqlite_autoindex_" ++ table ++ "_" ++ toString n, table, [i], true, none, listed⟩
  let late (c : ColumnSpec) : Bool := withoutRowid && c.primaryKey && sameName c.type "INTEGER"
  let early := columns.zipIdx.flatMap fun (c, i) =>
    (if c.primaryKey && !isAlias withoutRowid c && !late c then [index (!withoutRowid) i]
      else []) ++
      (if c.unique then [index true i] else [])
  let last := columns.zipIdx.flatMap fun (c, i) => if late c then [index false i] else []
  (early ++ last).zipIdx.map fun (make, n) => make (n + 1)

def tableObjects (name text : String) (specs : List ColumnSpec) (withoutRowid strict : Bool) :
    Except Complaint (List Object) := do
  if let some n := duplicate? (specs.map ColumnSpec.name) then
    throw (plain (.duplicateColumn n))
  let keys := specs.zipIdx.filter fun (c, _) => c.primaryKey
  if 1 < keys.length then throw (plain (.severalPrimaryKeys name))
  let alias? := specs.findIdx? (isAlias withoutRowid)
  let columns ← specs.mapM fun c =>
    columnOf name strict (c.primaryKey && (withoutRowid || (strict && !isAlias withoutRowid c))) c
  if withoutRowid && keys.isEmpty then throw (plain (.primaryKeyMissing name))
  let references := specs.zipIdx.flatMap fun (c, i) =>
    c.references.map fun r => ⟨i, r.parent, r.key, r.deferred⟩
  let bare : StoredTable :=
    { name, columns, alias?, strict, text, references
      key? := if withoutRowid then some (keys.map (·.2)) else none
      checks := []
      rows := [] }
  let checks ← (specs.flatMap ColumnSpec.checks).mapM fun c => do
    let condition ← c.condition.resolve (lookUp (some bare) [])
    pure ⟨c.text, condition⟩
  .ok (.table { bare with checks } :: (constraintIndexes name withoutRowid specs).map .index)

def planTable (c : Catalog) (temporary ifNotExists : Bool) (name : ObjectName)
    (specs : List ColumnSpec) (withoutRowid strict : Bool) (text : String) :
    Except Complaint Plan := do
  let i ← requireDatabase c (if temporary then Catalog.temporary else 0) name.database
  if temporary && i ≠ Catalog.temporary then throw (plain .temporaryNameQualified)
  checkObjectName name.name
  let d := c.database i
  if (d.table? name.name).isSome then
    if ifNotExists then return .present
    else throw ⟨.tableExists name.name, some name.offset⟩
  if (d.index? name.name).isSome then
    throw (plain (.misuse s!"there is already an index named {name.name}"))
  let objects ← tableObjects name.name text specs withoutRowid strict
  return .createObjects i objects

def indexPosition (t : StoredTable) (column : String × Nat × Direction) : Except Complaint Nat :=
  match t.position? column.1 with
  | some i => .ok i
  | none => .error ⟨.noSuchColumn column.1, some column.2.1⟩

/-- The plan of a CREATE INDEX. Without a database the index goes where its table is, if that is the
temporary database, and else into the main one. -/
def planIndex (c : Catalog) (unique ifNotExists : Bool) (name : ObjectName) (table : String)
    (columns : List (String × Nat × Direction)) (text : String) : Except Complaint Plan := do
  let default := if ((c.database Catalog.temporary).table? table).isSome then Catalog.temporary
    else 0
  let i ← requireDatabase c default name.database
  let d := c.database i
  let t ← match c.tableIn? i table true with
    | some t => pure t
    | none => throw (plain (.noSuchTable (c.databaseName i ++ "." ++ table)))
  if Catalog.isCatalog i t.name true then throw (plain
    (.misuse s!"table {t.name} may not be indexed"))
  checkObjectName name.name
  if (d.table? name.name).isSome then throw (plain (.tableNamedLike name.name))
  if (d.index? name.name).isSome then
    if ifNotExists then return .present else throw (plain (.indexExists name.name))
  let positions ← columns.mapM (indexPosition t)
  return .createObjects i [.index ⟨name.name, t.name, positions, unique, some text, true⟩]

/-! ### Rows -/

def insertTarget (t : StoredTable) (table : ObjectName) (column : String) : Except Complaint Nat :=
  match t.slot? column with
  | some s => .ok s.position
  | none => .error (plain (.noColumnNamed table.text column))

def planInsert (c : Catalog) (conflict : Conflict) (table : ObjectName)
    (columns : Option (List String)) (rows : List (List (Expr ColumnRef)))
    (returned : List ResultSpec) : Except Complaint Plan := do
  let (i, t) ← requireWritable c table
  let targets ← match columns with
    | none => pure (List.range t.columns.length)
    | some names => names.mapM (insertTarget t table)
  let rows ← rows.mapM fun row => row.mapM (Expr.resolve (lookUp none []))
  if let some row := rows.find? fun row => row.length ≠ targets.length then
    throw (plain (match columns with
      | none => .tableColumnsValues table.text targets.length row.length
      | some _ => .valuesForColumns row.length targets.length))
  let returned ← outputs (some t) returned
  return .insert ⟨i, t.name⟩ conflict targets rows returned

def planSelect (c : Catalog) (distinct : Bool) (specs : List ResultSpec) (table : Option ObjectName)
    (condition : Option (Expr ColumnRef)) (orderBy : List (SortKey ColumnRef))
    (limit : Option (Expr ColumnRef)) : Except Complaint Plan := do
  let found ← match table with
    | none => pure none
    | some name => some <$> requireTable c name
  let t := found.map (·.2)
  let limit ← resolve? (lookUp none []) limit
  let outputs ← outputs t specs
  let names := givenNames specs (lookUp t [])
  let condition ← resolve? (lookUp t names) condition
  let orderBy ← orderBy.mapM (sortKeyOf t names outputs)
  let source := found.map fun (i, t) => ⟨i, t.name⟩
  return .select { distinct, outputs, source, condition, orderBy, limit }

def updateTarget (t : StoredTable) (assignment : String × Expr ColumnRef) :
    Except Complaint (Nat × Expr Slot) := do
  let e ← assignment.2.resolve (lookUp (some t) [])
  match t.slot? assignment.1 with
  | some s => .ok (s.position, e)
  | none => .error (plain (.noSuchColumn assignment.1))

def planUpdate (c : Catalog) (conflict : Conflict) (table : ObjectName)
    (set : List (String × Expr ColumnRef)) (condition : Option (Expr ColumnRef))
    (returned : List ResultSpec) : Except Complaint Plan := do
  let (i, t) ← requireWritable c table
  let set ← set.mapM (updateTarget t)
  let condition ← resolve? (lookUp (some t) []) condition
  let returned ← outputs (some t) returned
  return .update ⟨i, t.name⟩ conflict set condition returned

def planDelete (c : Catalog) (table : ObjectName) (condition : Option (Expr ColumnRef))
    (returned : List ResultSpec) : Except Complaint Plan := do
  let (i, t) ← requireWritable c table
  let condition ← resolve? (lookUp (some t) []) condition
  let returned ← outputs (some t) returned
  return .delete ⟨i, t.name⟩ condition returned

def Plan.of (c : Catalog) : Command → Except Complaint Plan
  | .nothing => .ok .nothing
  | .createTable temporary ifNotExists name columns withoutRowid strict text =>
    planTable c temporary ifNotExists name columns withoutRowid strict text
  | .createIndex unique ifNotExists name table columns text =>
    planIndex c unique ifNotExists name table columns text
  | .insert conflict table columns rows returned =>
    planInsert c conflict table columns rows returned
  | .select distinct results table condition orderBy limit =>
    planSelect c distinct results table condition orderBy limit
  | .update conflict table set condition returned =>
    planUpdate c conflict table set condition returned
  | .delete table condition returned => planDelete c table condition returned
  | .begin => .ok .begin
  | .commit => .ok .commit
  | .rollback => .ok .rollback
  | .pragma name argument => .ok (.pragma name argument)

namespace Plan

def expressions : Plan → List (Expr Slot)
  | .insert _ _ _ rows returned => rows.flatten ++ outputExpressions returned
  | .select q =>
    outputExpressions q.outputs ++ q.condition.toList ++ q.orderBy.map SortKey.key ++ q.limit.toList
  | .update _ _ set condition returned =>
    set.map (·.2) ++ condition.toList ++ outputExpressions returned
  | .delete _ condition returned => condition.toList ++ outputExpressions returned
  | _ => []
where
  /-- The expressions of result columns. -/
  outputExpressions (outputs : List NamedOutput) : List (Expr Slot) :=
    outputs.filterMap fun o =>
      match o.output with
      | .value e => some e
      | .count => none

def parameters (p : Plan) : List String := p.expressions.flatMap Expr.parameters

def columnNames : Plan → List String
  | .insert _ _ _ _ returned | .update _ _ _ _ returned | .delete _ _ returned =>
    returned.map NamedOutput.name
  | .select q => q.outputs.map NamedOutput.name
  | .pragma name _ => [name]
  | _ => []

end Plan

end TypedTables.Engine
