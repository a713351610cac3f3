import TypedTables.Schema.Basic

/-!
# Record types

A record type says which columns its records have, and converts between records and rows.
-/
namespace TypedTables

structure RecordType (ρ : Type) where
  /-- The name under which the schema of the type is registered. -/
  name : String
  declarations : List Declaration
  toRow : ρ → Row
  ofRow : Row → Except Error ρ
  /-- Checks a record as a whole, when it is stored and after it was read. -/
  validate : ρ → Except Error Unit

namespace RecordType

def schema {ρ : Type} (T : RecordType ρ) : Except Error Schema :=
  Schema.ofDeclarations T.declarations

end RecordType

end TypedTables
