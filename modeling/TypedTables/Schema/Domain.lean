import TypedTables.Schema.FieldType

/-!
# Constraints from closed domains

The CHECK constraint that admits the members of the domain of an enumeration or of a set of
literals.
-/
namespace TypedTables

/-- A text as a literal of a statement: between single quotes, a quote inside written twice. -/
def sqlLiteral (s : String) : String :=
  String.ofList ('\'' :: (s.toList.flatMap fun c => if c = '\'' then ['\'', '\'']
    else [c]) ++ ['\''])

def FieldType.domainLiterals : FieldType → Except Error (List String)
  | .intEnum domain | .intLiteral domain => .ok (domain.map fun i => toString i.toInt)
  | .strEnum domain | .strLiteral domain => .ok (domain.map sqlLiteral)
  | .optional inner => inner.domainLiterals
  | type => .error (.schema (.noClosedDomain type.name))

def checkConstraint (column : String) (type : FieldType) : Except Error String := do
  let literals ← type.domainLiterals
  .ok ("CHECK(" ++ column ++ " IN (" ++ String.intercalate "," literals ++ "))")

end TypedTables
