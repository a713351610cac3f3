import TypedTables.Job
import TypedTables.Record.Decode
import TypedTables.Statement.Cache
import TypedTables.Table.Filter

/-!
# Tables

A table of records. An operation on it has two parts: statements and parameters are built first,
with the statements cached, and then a job for a connection is left over. So a fault in a name, in
the shape of a statement or in a value is found before the engine is asked for anything, unless the
values come one after the other.
-/
namespace TypedTables

structure Table (ρ : Type) where
  type : RecordType ρ
  schema : Schema
  name : TableName
  bootstrap : Option Bootstrap

abbrev Building (α : Type) := ExceptT Error (StateM StatementCache) α

namespace Table

variable {ρ : Type}

def named (type : RecordType ρ) (name : String) : Except Error (Table ρ) := do
  let name ← TableName.parse name
  let schema ← type.schema
  .ok ⟨type, schema, name, none⟩

def bootstrapped (type : RecordType ρ) (bootstrap : Bootstrap) : Except Error (Table ρ) := do
  let t ← named type bootstrap.tableName
  .ok { t with bootstrap := some bootstrap }

def newCache (t : Table ρ) : StatementCache := .new t.schema t.name

def statement (shape : Shape) : Building String := fun c =>
  let (r, c) := c.get shape
  (r.map Shared.content, c)

/-- The statement of a selection; the limit is bound besides the parameters of the predicate. -/
def selection (projection : Projection) (predicate : Predicate)
    (o : SelectOptions) (params : Params) :
    Building (String × Params) := do
  let text ← statement (.select ⟨projection, o.distinct, predicate, o.orderBy, o.limit.isSome⟩)
  match o.limit with
  | some n => return (text, params.push limitPlaceholder (SelectOptions.storedLimit n))
  | none => return (text, params)

def filtered (t : Table ρ) (projection : Projection) (f : Filter) (o : SelectOptions) :
    Building (String × Params) := do
  let (predicate, params) ← f.compile t.schema ""
  selection projection predicate o params

/-- Reads the result rows of a statement as records; the first `skip` columns are passed over. -/
def decodeRecords (t : Table ρ) (skip : Nat) (names : List String) (values : List Stored) :
    Except Error ρ :=
  RowLayout.decodeRecord t.type (.forRecord t.schema names skip) values

def decodeRows (t : Table ρ) (names : List String) (values : List Stored) : Except Error Row :=
  RowLayout.decodeRow (.forRow t.schema names) values

end Table

end TypedTables
