import TypedTables.Error
import TypedTables.Keyed

/-!
# Rows

A row binds column names to values, each name once. `take` removes a column and reads its value as a
type; a column that is missing reads as NULL.
-/
namespace TypedTables

abbrev Row := Keyed Value

class IntEnum (α : Type) where
  variants : List α
  toInt : α → Int64

class StrEnum (α : Type) where
  variants : List α
  toText : α → String

def IntEnum.ofInt? {α : Type} [IntEnum α] (i : Int64) : Option α :=
  (variants (α := α)).find? (toInt · == i)

def StrEnum.ofText? {α : Type} [StrEnum α] (s : String) : Option α :=
  (variants (α := α)).find? (toText · == s)

/-- Reads the columns of a row one after the other. A column that was looked at is gone, whether its
value could be read or not. -/
abbrev Row.Reader := ExceptT Error (StateM Row)

namespace Row

def take (α : Type) [FromValue α] (column : String) : Reader α := do
  let row ← get
  set (row.erase column)
  match fromValue ((row.get? column).getD .null) with
  | .ok a => pure a
  | .error fault => throw (.column column (.kind fault))

/-- Removes a column and reads its integer as a variant. -/
def takeIntEnum (α : Type) [IntEnum α] (column : String) : Reader α := do
  let i ← take Int64 column
  match IntEnum.ofInt? i with
  | some a => pure a
  | none => throw (.column column (.noVariantInt i))

def takeIntEnum? (α : Type) [IntEnum α] (column : String) : Reader (Option α) := do
  match ← take (Option Int64) column with
  | none => pure none
  | some i =>
    match IntEnum.ofInt? i with
    | some a => pure (some a)
    | none => throw (.column column (.noVariantInt i))

def takeStrEnum (α : Type) [StrEnum α] (column : String) : Reader α := do
  let s ← take String column
  match StrEnum.ofText? s with
  | some a => pure a
  | none => throw (.column column (.noVariantText s))

end Row

end TypedTables
