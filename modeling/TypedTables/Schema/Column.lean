import TypedTables.Schema.FieldType
import TypedTables.Text.Blank
import TypedTables.Text.Identifier

/-!
# Columns

A declaration gives the name of a column, its type and the fragments of its constraint clause.
Resolved, it is a `Column`: its name is a plain identifier and its affinity is known.
-/
namespace TypedTables

structure Declaration where
  name : String
  type : FieldType
  /-- The affinity that is asked for. -/
  affinity : Option Affinity
  /-- The fragments of the constraint clause, in order. -/
  fragments : List String

namespace Declaration

def of (name : String) (type : FieldType) : Declaration := ⟨name, type, none, []⟩

def constraint (d : Declaration) (fragment : String) : Declaration :=
  { d with fragments := d.fragments ++ [fragment] }

/-- Adds a default value, given as an expression. -/
def default (d : Declaration) (expression : String) : Declaration :=
  d.constraint ("DEFAULT " ++ expression)

/-- Asks for an affinity; a custom type needs one. -/
def withAffinity (d : Declaration) (affinity : Affinity) : Declaration :=
  { d with affinity := some affinity }

def optional (d : Declaration) : Declaration := { d with type := d.type.orNull }

/-- The constraint clause: the fragments without blanks around them, those that are not empty. -/
def clause (d : Declaration) : String :=
  String.intercalate " " ((d.fragments.map Text.trim).filter (· ≠ ""))

end Declaration

structure Column where
  name : String
  type : ResolvedType
  constraint : Option String
  isIdentifier_name : Text.isIdentifier name = true

namespace Column

def definition (c : Column) : String :=
  String.intercalate " "
    (([c.name, c.type.affinity.sql, c.constraint.getD ""]).filter (· ≠ ""))

def encode (c : Column) (v : Value) : Except Error Stored :=
  (c.type.encode v).mapError (.column c.name)

def decode (c : Column) (stored : Stored) : Except Error Value :=
  (c.type.decode stored).mapError (.column c.name)

end Column

def Declaration.resolve (d : Declaration) : Except SchemaFault Column :=
  if h : Text.isIdentifier d.name = true then
    match ResolvedType.of? d.type d.affinity with
    | none => .error (.noAffinity d.name)
    | some type => .ok ⟨d.name, type, if d.clause = "" then none else some d.clause, h⟩
  else .error (.columnName d.name)

theorem Declaration.name_of_resolve {d : Declaration} {c : Column} (h : d.resolve = .ok c) :
    c.name = d.name := by
  simp only [resolve] at h
  split at h
  · split at h
    · cases h
    · cases h; rfl
  · cases h

end TypedTables
