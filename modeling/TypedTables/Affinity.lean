/-!
# Affinities

The affinity of a column says into which kind of value the engine turns what is stored in it, where
that loses nothing. It follows from the type name in the declaration of the column.
-/
namespace TypedTables

inductive Affinity where
  | integer
  | real
  | text
  | blob
  | numeric
  | null
  deriving DecidableEq, Repr

namespace Affinity

def sql : Affinity → String
  | .integer => "INTEGER"
  | .real => "REAL"
  | .text => "TEXT"
  | .blob => "BLOB"
  | .numeric => "NUMERIC"
  | .null => ""

/-- Whether the word stands somewhere in the characters. -/
def occurs (word : List Char) : List Char → Bool
  | [] => word.isEmpty
  | c :: cs => word.isPrefixOf (c :: cs) || occurs word cs

def mentions (words : List String) (cs : List Char) : Bool :=
  words.any fun word => occurs word.toList cs

/-- The affinity of a column with the given type name: the first rule that applies counts. -/
def ofTypeName (type : String) : Affinity :=
  let cs := type.toList.map Char.toUpper
  if mentions ["INT"] cs then .integer
  else if mentions ["CHAR", "CLOB", "TEXT"] cs then .text
  else if cs.isEmpty || mentions ["BLOB"] cs then .blob
  else if mentions ["REAL", "FLOA", "DOUB"] cs then .real
  else .numeric

/-- Whether texts that are numbers become numbers. -/
def isNumeric : Affinity → Bool
  | .integer | .real | .numeric => true
  | _ => false

example : ofTypeName "integer" = .integer := by decide
example : ofTypeName "" = .blob := by decide
example : ofTypeName "STRING" = .numeric := by decide

end Affinity

end TypedTables
