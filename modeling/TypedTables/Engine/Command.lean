import TypedTables.Engine.Expr
import TypedTables.Statement.Shape

/-!
# Commands

A statement as it is read, before its names are looked up.
-/
namespace TypedTables.Engine

/-- A reference to a column, possibly with the table in front of it. A name between double quotes
that is no column stands for its text. -/
structure ColumnRef where
  table : Option String
  name : String
  quoted : Bool
  offset : Nat
  deriving DecidableEq

/-- A name, possibly with the database in front of it, and where both start. -/
structure ObjectName where
  database : Option (String × Nat)
  name : String
  offset : Nat
  deriving DecidableEq

structure CheckSpec where
  text : String
  condition : Expr ColumnRef
  deriving DecidableEq

structure ReferenceSpec where
  parent : String
  key : String
  deferred : Bool
  deriving DecidableEq

structure ColumnSpec where
  name : String
  type : String
  primaryKey : Bool := false
  /-- A descending key is no name for the rowid. -/
  descending : Bool := false
  notNull : Bool := false
  unique : Bool := false
  checks : List CheckSpec := []
  default : Option (Expr ColumnRef) := none
  collation : Option String := none
  references : List ReferenceSpec := []
  deriving DecidableEq

inductive ResultSpec where
  | all
  /-- The number of rows. -/
  | count (name : String)
  /-- An expression, with its name or else its text. -/
  | value (e : Expr ColumnRef) (name : Option String) (text : String)
  deriving DecidableEq

structure SortKey (κ : Type) where
  key : Expr κ
  direction : Direction
  deriving DecidableEq

inductive Command where
  /-- Blanks and comments alone. -/
  | nothing
  | createTable (temporary ifNotExists : Bool) (name : ObjectName) (columns : List ColumnSpec)
      (withoutRowid strict : Bool) (text : String)
  | createIndex (unique ifNotExists : Bool) (name : ObjectName) (table : String)
      (columns : List (String × Nat × Direction)) (text : String)
  | insert (conflict : Conflict) (table : ObjectName) (columns : Option (List String))
      (rows : List (List (Expr ColumnRef))) (returned : List ResultSpec)
  | select (distinct : Bool) (results : List ResultSpec) (table : Option ObjectName)
      (condition : Option (Expr ColumnRef)) (orderBy : List (SortKey ColumnRef))
      (limit : Option (Expr ColumnRef))
  | update (conflict : Conflict) (table : ObjectName) (set : List (String × Expr ColumnRef))
      (condition : Option (Expr ColumnRef)) (returned : List ResultSpec)
  | delete (table : ObjectName) (condition : Option (Expr ColumnRef)) (returned : List ResultSpec)
  | begin
  | commit
  | rollback
  | pragma (name : String) (argument : Option Stored)
  deriving DecidableEq

end TypedTables.Engine
