import TypedTables.Statement.Basic

/-!
# The text of a statement

Keywords are separated by single spaces, lists by a comma and a space.
-/
namespace TypedTables

def commas (items : List String) : String := String.intercalate ", " items

def placeholder (name : String) : String := ":" ++ name

def conflictText : Option Conflict → String
  | none => ""
  | some conflict => "OR " ++ conflict.keyword ++ " "

namespace Condition

/-- The WHERE clause, with a space in front. `mark` stands before the column names in
placeholders. -/
def text (mark : String) : Condition → String
  | .always => ""
  | .equalities columns =>
    " WHERE " ++
      String.intercalate " AND " (columns.map fun c => c ++ "=" ++ placeholder (mark ++ c))
  | .clause text => " WHERE " ++ text

end Condition

def Returned.text : Returned → String
  | .nothing => ""
  | .all => " RETURNING *"
  | .columns names => " RETURNING " ++ commas names

def Selected.text : Selected → String
  | .columns names => commas names
  | .count => "COUNT(*)"
  | .rowidAndAll => "rowid, *"

def sortKeyText : String × Direction → String
  | (name, direction) => name ++ " " ++ direction.keyword

def indexColumnText : String × Option Direction → String
  | (name, none) => name
  | (name, some direction) => name ++ " " ++ direction.keyword

def keywordIf (asked : Bool) (word : String) : String := if asked then word ++ " " else ""

def TableOptions.trailer (o : TableOptions) : String :=
  match o.withoutRowid, o.strict with
  | false, false => ""
  | true, false => " WITHOUT ROWID"
  | false, true => " STRICT"
  | true, true => " WITHOUT ROWID, STRICT"

namespace Statement

def text : Statement → String
  | .createTable table definitions o =>
    "CREATE " ++ keywordIf o.temporary "TEMPORARY" ++ "TABLE " ++
      keywordIf o.ifNotExists "IF NOT EXISTS" ++ table.text ++ " (" ++ commas definitions ++ ")" ++
      o.trailer
  | .createIndex table index =>
    "CREATE " ++ keywordIf index.unique "UNIQUE" ++ "INDEX " ++
      keywordIf index.ifNotExists "IF NOT EXISTS" ++
      (match table.database with
        | some d => d ++ "."
        | none => "") ++
      index.name ++ " ON " ++ table.table ++
      " (" ++ commas (index.columns.map indexColumnText) ++ ")"
  | .insert table columns conflict returned =>
    "INSERT " ++ conflictText conflict ++ "INTO " ++ table.text ++
      (if columns.isEmpty then " DEFAULT VALUES"
        else " (" ++ commas columns ++ ") VALUES (" ++ commas (columns.map placeholder) ++ ")") ++
      returned.text
  | .select table selected distinct condition orderBy limit =>
    "SELECT " ++ keywordIf distinct "DISTINCT" ++ selected.text ++ " FROM " ++ table.text ++
      condition.text "" ++
      (if orderBy.isEmpty then "" else " ORDER BY " ++ commas (orderBy.map sortKeyText)) ++
      (if limit then " LIMIT " ++ placeholder limitPlaceholder else "")
  | .update table set conflict condition =>
    "UPDATE " ++ conflictText conflict ++ table.text ++ " SET " ++
      commas (set.map fun c => c ++ "=" ++ placeholder c) ++ condition.text whereMark
  | .delete table condition returned =>
    "DELETE FROM " ++ table.text ++ condition.text "" ++ returned.text

end Statement

def Schema.statementText (s : Schema) (table : TableName) (shape : Shape) : Except Error String :=
  (Statement.ofShape s table shape).map Statement.text

end TypedTables
