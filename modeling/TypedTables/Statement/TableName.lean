import TypedTables.Error
import TypedTables.Text.Identifier

/-!
# Names of tables

A table name is a plain identifier, with the name of an attached database and a point in front if
the table is meant to be there.
-/
namespace TypedTables

structure TableName where
  database : Option String
  table : String
  isIdentifier_database : ∀ d ∈ database, Text.isIdentifier d = true
  isIdentifier_table : Text.isIdentifier table = true
  deriving DecidableEq

namespace TableName

/-- The parts of a name: what stands before the first point, if there is one, and the rest. -/
def split (name : String) : Option String × String :=
  let cs := name.toList
  match cs.dropWhile (· ≠ '.') with
  | [] => (none, name)
  | _ :: rest => (some (String.ofList (cs.takeWhile (· ≠ '.'))), String.ofList rest)

def parse (name : String) : Except Error TableName :=
  let (database, table) := split name
  if h : (∀ d ∈ database, Text.isIdentifier d = true) ∧ Text.isIdentifier table = true then
    .ok ⟨database, table, h.1, h.2⟩
  else .error (.schema (.tableName name))

def text (n : TableName) : String :=
  match n.database with
  | some d => d ++ "." ++ n.table
  | none => n.table

end TableName

end TypedTables
