import TypedTables.Shared
import TypedTables.Statement.Text

/-!
# The cache of statements

Each table keeps the texts of its statements by shape, for good. Shapes that hold text of the caller
are kept only up to a capacity; a shape that cannot be built is not kept. A request is a probe, a
build and a store that keeps an entry which is already there.
-/
namespace TypedTables

def rawCapacity : Nat := 64

structure StatementCache where
  schema : Schema
  table : TableName
  statements : SharedMap Shape String
  /-- The number of kept shapes that hold text of the caller. -/
  raw : Nat

namespace StatementCache

def new (schema : Schema) (table : TableName) : StatementCache := ⟨schema, table, .empty, 0⟩

def size (c : StatementCache) : Nat := c.statements.size

def find? (c : StatementCache) (shape : Shape) : Option (Shared String) := c.statements.find? shape

def build (c : StatementCache) (shape : Shape) : Except Error String :=
  c.schema.statementText c.table shape

/-- Keeps a text that was built, unless the shape has one or there is no room. -/
def store (c : StatementCache) (shape : Shape) (text : String) : Shared String × StatementCache :=
  let (object, statements) := c.statements.issue text
  let c := { c with statements }
  match c.find? shape with
  | some existing => (existing, c)
  | none =>
    if shape.isRaw && rawCapacity ≤ c.raw then (object, c)
    else
      let (object, statements) := c.statements.insertIfAbsent shape object
      (object, { c with statements, raw := if shape.isRaw then c.raw + 1 else c.raw })

/-- The statement of a shape, built on the first request. -/
def get (c : StatementCache) (shape : Shape) : Except Error (Shared String) × StatementCache :=
  match c.find? shape with
  | some object => (.ok object, c)
  | none =>
    match c.build shape with
    | .error e => (.error e, c)
    | .ok text =>
      let (object, c) := c.store shape text
      (.ok object, c)

end StatementCache

end TypedTables
