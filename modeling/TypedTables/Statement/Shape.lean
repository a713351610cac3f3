import TypedTables.Error

/-!
# Shapes of statements

What is asked of a statement on a table, without any value: which columns, which condition, which
options. The text of a statement depends on nothing else besides the schema and the table name.
-/
namespace TypedTables

inductive Conflict where
  | abort
  | fail
  | ignore
  | replace
  | rollback
  deriving DecidableEq, Repr

def Conflict.keyword : Conflict → String
  | .abort => "ABORT"
  | .fail => "FAIL"
  | .ignore => "IGNORE"
  | .replace => "REPLACE"
  | .rollback => "ROLLBACK"

inductive Direction where
  | ascending
  | descending
  deriving DecidableEq, Repr

def Direction.keyword : Direction → String
  | .ascending => "ASC"
  | .descending => "DESC"

inductive ColumnChoice where
  | all
  | only (names : List String)
  deriving DecidableEq

inductive Predicate where
  /-- Every row. -/
  | all
  /-- The rows in which each of the columns, at least one, equals a parameter. -/
  | columns (names : List String)
  /-- The rows for which an expression, written by the caller, holds. Its parameters are
  declared. -/
  | raw (clause : String) (params : List String)
  deriving DecidableEq

inductive Returning where
  | all
  | columns (names : List String)
  deriving DecidableEq

inductive Projection where
  | columns (choice : ColumnChoice)
  /-- The number of rows. -/
  | count
  /-- The rowid and every column. -/
  | rowidAndAll
  deriving DecidableEq

structure InsertShape where
  columns : ColumnChoice
  conflict : Option Conflict
  returning : Option Returning
  deriving DecidableEq

structure SelectShape where
  projection : Projection
  distinct : Bool
  predicate : Predicate
  /-- Columns, or `rowid`, with their directions. -/
  orderBy : List (String × Direction)
  limit : Bool
  deriving DecidableEq

structure UpdateShape where
  set : List String
  predicate : Predicate
  conflict : Option Conflict
  deriving DecidableEq

structure DeleteShape where
  predicate : Predicate
  returning : Option Returning
  deriving DecidableEq

structure TableOptions where
  temporary : Bool
  ifNotExists : Bool
  withoutRowid : Bool
  strict : Bool
  deriving DecidableEq

def TableOptions.none : TableOptions := ⟨false, false, false, false⟩

structure IndexShape where
  name : String
  columns : List (String × Option Direction)
  unique : Bool
  ifNotExists : Bool
  deriving DecidableEq

structure Bootstrap where
  tableName : String
  table : TableOptions
  indexes : List IndexShape
  deriving DecidableEq

inductive Shape where
  | createTable (options : TableOptions)
  | createIndex (index : IndexShape)
  | insert (shape : InsertShape)
  | select (shape : SelectShape)
  | update (shape : UpdateShape)
  | delete (shape : DeleteShape)
  deriving DecidableEq

def Predicate.isRaw : Predicate → Bool
  | .raw .. => true
  | _ => false

def Shape.isRaw : Shape → Bool
  | .select shape => shape.predicate.isRaw
  | .update shape => shape.predicate.isRaw
  | .delete shape => shape.predicate.isRaw
  | _ => false

end TypedTables
