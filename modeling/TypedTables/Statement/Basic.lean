import TypedTables.Schema.Basic
import TypedTables.Statement.Clause
import TypedTables.Statement.Shape
import TypedTables.Statement.TableName

/-!
# Statements

A `Statement` is a shape that was checked against a schema: its columns are declared and in the
order of the table, each once, and nothing in it is empty that may not be. `Statement.text` is the
statement as the engine reads it. Values never stand in the text: each has a placeholder, `:` and a
name.
-/
namespace TypedTables

inductive Condition where
  | always
  | equalities (columns : List String)
  | clause (text : String)
  deriving DecidableEq

inductive Selected where
  | columns (names : List String)
  | count
  | rowidAndAll
  deriving DecidableEq

inductive Returned where
  | nothing
  | all
  | columns (names : List String)
  deriving DecidableEq

inductive Statement where
  | createTable (table : TableName) (definitions : List String) (options : TableOptions)
  | createIndex (table : TableName) (index : IndexShape)
  | insert (table : TableName) (columns : List String) (conflict : Option Conflict)
      (returned : Returned)
  | select (table : TableName) (selected : Selected) (distinct : Bool) (condition : Condition)
      (orderBy : List (String × Direction)) (limit : Bool)
  | update (table : TableName) (set : List String) (conflict : Option Conflict)
      (condition : Condition)
  | delete (table : TableName) (condition : Condition) (returned : Returned)
  deriving DecidableEq

/-- What stands before a column name in the placeholder of the condition of an UPDATE, so that a
column can be set and compared at once. -/
def whereMark : String := "__where_"

def limitPlaceholder : String := "__limit"

namespace Schema

variable (s : Schema)

def chosen : ColumnChoice → Except Error (List String)
  | .all => .ok s.names
  | .only names => s.ordered names

/-- The checked condition of a predicate; `set` are the columns that are set. -/
def condition (set : List String) : Predicate → Except Error Condition
  | .all => .ok .always
  | .columns names => do
    let columns ← s.ordered names
    if columns.isEmpty then .error (.statement .emptyPredicate) else .ok (.equalities columns)
  | .raw clause params => do
    let clause := Text.trim clause
    if clause.isEmpty then .error (.statement .emptyClause)
    else
      (Clause.check clause params set).mapError .statement
      .ok (.clause clause)

def returned : Option Returning → Except Error Returned
  | none => .ok .nothing
  | some .all => .ok .all
  | some (.columns names) => do
    let columns ← s.ordered names
    if columns.isEmpty then .error (.statement .returnsNothing) else .ok (.columns columns)

def selected : Projection → Except Error Selected
  | .columns choice => do
    let columns ← s.chosen choice
    if columns.isEmpty then .error (.statement .selectsNothing) else .ok (.columns columns)
  | .count => .ok .count
  | .rowidAndAll => .ok .rowidAndAll

def check (name : String) : Except Error Unit := (s.column name).map fun _ => ()

def checkSortKey (name : String) : Except Error Unit :=
  if name = "rowid" then .ok () else s.check name

end Schema

namespace Statement

def ofShape (s : Schema) (table : TableName) : Shape → Except Error Statement
  | .createTable options => .ok (.createTable table (s.columns.map Column.definition) options)
  | .createIndex index => do
    if !Text.isIdentifier index.name then .error (.schema (.indexName index.name))
    else if index.columns.isEmpty then .error (.schema (.indexWithoutColumns index.name))
    else
      index.columns.forM fun (name, _) => s.check name
      .ok (.createIndex table index)
  | .insert shape => do
    let columns ← s.chosen shape.columns
    let returned ← s.returned shape.returning
    .ok (.insert table columns shape.conflict returned)
  | .select shape => do
    let selected ← s.selected shape.projection
    let condition ← s.condition [] shape.predicate
    shape.orderBy.forM fun (name, _) => s.checkSortKey name
    .ok (.select table selected shape.distinct condition shape.orderBy shape.limit)
  | .update shape => do
    let set ← s.ordered shape.set
    if set.isEmpty then .error (.statement .setsNothing)
    else
      let condition ← s.condition set shape.predicate
      .ok (.update table set shape.conflict condition)
  | .delete shape => do
    let condition ← s.condition [] shape.predicate
    let returned ← s.returned shape.returning
    .ok (.delete table condition returned)

end Statement

end TypedTables
