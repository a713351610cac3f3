import TypedTables.Table.Insert

/-!
# Updating and deleting

The values that are set and those that are compared with are bound under different names, so that a
column can be on both sides of an update.
-/
namespace TypedTables.Table

variable {σ ρ : Type} (t : Table ρ) (E : Engine.Interface σ)

/-- Sets columns of the rows that a filter chooses; answers the number of changed rows. -/
def update (set : Row) (f : Filter) (conflict : Option Conflict) : Building (Job σ Nat) := do
  let columns ← checked (t.schema.orderedNames set)
  let (predicate, compared) ← checked (f.compile t.schema whereMark)
  let text ← statement (.update ⟨columns, predicate, conflict⟩)
  let params ← checked (t.schema.encodeRow set "")
  return E.change text (params.extend compared)

def orderedPredicate : Predicate → Except Error Predicate
  | .columns names => (t.schema.ordered names).map .columns
  | predicate => .ok predicate

/-- What the messages call the values that are set, and those that are compared with. -/
def setValues : String := "update_many set values"

@[inherit_doc setValues]
def whereValues : String := "update_many where values"

/-- The parameters with which the values of a predicate are bound. -/
def encodeCompared (predicate : Predicate) (row : Row) : Except Error Params :=
  match predicate with
  | .all => do
    expectColumns row [] whereValues
    .ok .empty
  | .columns names => do
    expectColumns row names whereValues
    t.schema.encodeRow row whereMark
  | .raw _ names => do
    expectColumns row names whereValues
    .ok (.ofRow row)

def encodeUpdate (columns : List String) (predicate : Predicate) (pair : Row × Row) :
    Except Error Params := do
  expectColumns pair.1 columns setValues
  let params ← t.schema.encodeRow pair.1 ""
  let compared ← t.encodeCompared predicate pair.2
  .ok (params.extend compared)

/-- Runs one update for each pair of values to set and values to compare with, in one
transaction. -/
def updateMany (columns : List String) (predicate : Predicate) (pairs : List (Row × Row)) :
    Building (Job σ Nat) := do
  let columns ← checked (t.schema.ordered columns)
  let predicate ← checked (t.orderedPredicate predicate)
  let text ← statement (.update ⟨columns, predicate, none⟩)
  return E.batch text (t.encodeUpdate columns predicate) pairs

/-- Deletes the rows that a filter chooses; answers their number. -/
def delete (f : Filter) : Building (Job σ Nat) := do
  let (predicate, params) ← checked (f.compile t.schema "")
  let text ← statement (.delete ⟨predicate, none⟩)
  return E.change text params

end TypedTables.Table
