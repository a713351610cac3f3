import TypedTables.Record.Encode
import TypedTables.Statement.Basic

/-!
# Filters

A filter chooses rows, with the values that they are compared with. It compiles to a predicate,
which holds no values, and to the parameters that carry them.
-/
namespace TypedTables

attribute [local instance (high)] instPowNat

inductive Filter where
  /-- Every row. -/
  | all
  /-- The rows whose columns equal the values of a row, which names at least one. -/
  | eq (row : Row)
  /-- The rows for which an expression, written by the caller, holds. -/
  | raw (clause : String) (params : Row)

namespace Filter

/-- Adds a column that has to equal a value; an expression stays as it is. -/
def and (f : Filter) (column : String) (v : Value) : Filter :=
  match f with
  | .all => .eq (Keyed.empty.insert column v)
  | .eq row => .eq (row.insert column v)
  | .raw clause params => .raw clause params

/-- The predicate of a filter and its parameters; `mark` stands before the names of columns in
placeholders. -/
def compile (s : Schema) (mark : String) : Filter → Except Error (Predicate × Params)
  | .all => .ok (.all, .empty)
  | .eq row =>
    if row.isEmpty then .error (.statement .emptyFilter)
    else do
      let columns ← s.orderedNames row
      let params ← s.encodeRow row mark
      .ok (.columns columns, params)
  | .raw clause params => .ok (.raw clause params.names, .ofRow params)

end Filter

structure SelectOptions where
  orderBy : List (String × Direction)
  limit : Option UInt64
  distinct : Bool

namespace SelectOptions

def none : SelectOptions := ⟨[], .none, false⟩

/-- The limit as a stored value: the engine has no greater integer than `2 ^ 63 - 1`. -/
def storedLimit (n : UInt64) : Stored := .integer (Int64.ofNat (min n.toNat (2 ^ (63 : Nat) - 1)))

end SelectOptions

end TypedTables
