import TypedTables.Table.Insert

/-!
# Statements of the caller

A statement that the caller writes is run as it is, with its parameters bound by name. Its rows are
collected without regard to any schema.
-/
namespace TypedTables

structure ResultSet where
  columns : List String
  rows : List (List Value)
  /-- The number of rows that were inserted, updated or deleted. -/
  changes : Nat

namespace ResultSet

/-- The position of a column; of several with the same name, that of the last one. -/
def position? (r : ResultSet) (name : String) : Option Nat :=
  ((r.columns.zipIdx.filter (·.1 == name)).getLast?).map (·.2)

end ResultSet

def executeRaw {σ : Type} (E : Engine.Interface σ) (text : String) (params : Row) :
    Building (Job σ ResultSet) :=
  return (do
    let columns ← E.preparing text
    let answer ← E.running text (.ofRow params)
    return ⟨columns, answer.rows.map (·.map Value.ofStored), answer.changes⟩ : Job σ ResultSet)

end TypedTables
