import TypedTables.Table.Basic

/-!
# Creating tables and indexes

All statements of a bootstrap are built before the first one runs.
-/
namespace TypedTables

namespace Table

variable {σ ρ : Type} (t : Table ρ) (E : Engine.Interface σ)

def define (texts : List String) : Job σ Unit :=
  texts.forM fun text => do
    let _ ← E.change text .empty

def create (options : TableOptions) : Building (Job σ Unit) := do
  let text ← statement (.createTable options)
  return define E [text]

def createIndex (index : IndexShape) : Building (Job σ Unit) := do
  let text ← statement (.createIndex index)
  return define E [text]

/-- The shapes of the statements of a bootstrap; without one, the table is created if it is not
there. -/
def bootstrapShapes : Option Bootstrap → List Shape
  | some b => .createTable b.table :: b.indexes.map .createIndex
  | none => [.createTable { TableOptions.none with ifNotExists := true }]

def bootstrapAll : Building (Job σ Unit) := do
  let texts ← (bootstrapShapes t.bootstrap).mapM statement
  return define E texts

end Table

end TypedTables
