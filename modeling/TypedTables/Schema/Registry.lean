import TypedTables.Schema.Basic
import TypedTables.Shared

/-!
# The registry of schemas

The schema of each record type is extracted once and then shared. A look-up is a probe, an
extraction and an insertion that keeps an entry which is already there; invalid declarations leave
no entry.
-/
namespace TypedTables

/-- The schemas extracted so far, by record type. -/
abbrev Registry (κ : Type) := SharedMap κ Schema

namespace Registry

variable {κ : Type} [DecidableEq κ]

/-- Stores an extracted schema unless the record type has one; answers the one it has. -/
def store (r : Registry κ) (type : κ) (schema : Schema) : Shared Schema × Registry κ :=
  let (object, r) := r.issue schema
  SharedMap.insertIfAbsent r type object

def schemaOf (r : Registry κ) (type : κ) (declarations : List Declaration) :
    Except Error (Shared Schema) × Registry κ :=
  match SharedMap.find? r type with
  | some object => (.ok object, r)
  | none =>
    match Schema.ofDeclarations declarations with
    | .error e => (.error e, r)
    | .ok schema =>
      let (object, r) := store r type schema
      (.ok object, r)

end Registry

end TypedTables
