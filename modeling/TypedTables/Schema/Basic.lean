import TypedTables.Row
import TypedTables.Schema.Column

/-!
# Schemas

A schema is the list of the columns of a table, in order: at least one, and no name twice. Lists of
column names that refer to a schema are put into the order of the table.
-/
namespace TypedTables

structure Schema where
  columns : List Column
  columns_ne_nil : columns ≠ []
  names_nodup : (columns.map Column.name).Nodup

namespace Schema

/-- Resolves declarations in order; `taken` are the names of the columns before them. -/
def resolveAll (taken : List String) : List Declaration → Except SchemaFault (List Column)
  | [] => .ok []
  | d :: ds => do
    let c ← d.resolve
    if taken.contains c.name then .error (.declaredTwice c.name)
    else
      let cs ← resolveAll (c.name :: taken) ds
      .ok (c :: cs)

theorem resolveAll_cons (taken : List String) (d : Declaration) (ds : List Declaration)
    (cs : List Column) (h : resolveAll taken (d :: ds) = .ok cs) :
    ∃ c cs', cs = c :: cs' ∧ d.resolve = .ok c ∧ c.name ∉ taken ∧
      resolveAll (c.name :: taken) ds = .ok cs' := by
  simp only [resolveAll, bind, Except.bind] at h
  split at h
  · cases h
  next c hc =>
    split at h
    · cases h
    next hn =>
      split at h
      · cases h
      next cs' hcs =>
        cases h
        exact ⟨c, cs', rfl, hc, by simpa using hn, hcs⟩

theorem nodup_of_resolveAll {taken : List String} {ds : List Declaration} {cs : List Column}
    (h : resolveAll taken ds = .ok cs) :
    (cs.map Column.name).Nodup ∧ ∀ c ∈ cs, c.name ∉ taken := by
  induction ds generalizing taken cs with
  | nil => cases h; simp
  | cons d ds ih =>
    obtain ⟨c, cs', rfl, -, hc, hcs⟩ := resolveAll_cons taken d ds cs h
    obtain ⟨hnodup, hmem⟩ := ih hcs
    refine ⟨?_, ?_⟩
    · simp only [List.map_cons, List.nodup_cons, List.mem_map, not_exists, not_and]
      exact ⟨fun x hx e => hmem x hx (by simp [e]), hnodup⟩
    · intro x hx
      rcases List.mem_cons.1 hx with rfl | hx
      · exact hc
      · exact fun hm => hmem x hx (List.mem_cons_of_mem _ hm)

theorem length_of_resolveAll {taken : List String} {ds : List Declaration} {cs : List Column}
    (h : resolveAll taken ds = .ok cs) : cs.length = ds.length := by
  induction ds generalizing taken cs with
  | nil => cases h; rfl
  | cons d ds ih =>
    obtain ⟨c, cs', rfl, -, -, hcs⟩ := resolveAll_cons taken d ds cs h
    simp [ih hcs]

def ofDeclarations (ds : List Declaration) : Except Error Schema :=
  if hne : ds = [] then .error (.schema .noColumns)
  else
    match h : resolveAll [] ds with
    | .error fault => .error (.schema fault)
    | .ok cs =>
      .ok ⟨cs, fun e => hne (List.length_eq_zero_iff.1 (by rw [← length_of_resolveAll h, e]; rfl)),
        (nodup_of_resolveAll h).1⟩

def names (s : Schema) : List String := s.columns.map Column.name

def size (s : Schema) : Nat := s.columns.length

def column? (s : Schema) (name : String) : Option Column := s.columns.find? (·.name == name)

def contains (s : Schema) (name : String) : Bool := (s.column? name).isSome

def column (s : Schema) (name : String) : Except Error Column :=
  match s.column? name with
  | some c => .ok c
  | none => .error (.schema (.unknownColumn name))

/-- The columns that a list names, each once and in the order of the table; the first name in the
list that is not declared is an error. -/
def ordered (s : Schema) (names : List String) : Except Error (List String) :=
  match names.find? (!s.contains ·) with
  | some name => .error (.schema (.unknownColumn name))
  | none => .ok (s.names.filter names.contains)

def orderedNames (s : Schema) (row : Row) : Except Error (List String) := s.ordered row.names

end Schema

end TypedTables
