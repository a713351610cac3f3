import TypedTables.Proofs.ClauseVariables

/-!
# What a statement says of its table

The names in a statement that was built are those of declared columns. A statement of which the
caller wrote nothing himself is plain.
-/
namespace TypedTables

open Text

def Returned.Declared (s : Schema) : Returned → Prop
  | .columns names => names ≠ [] ∧ ∀ name ∈ names, name ∈ s.names
  | _ => True

def Selected.Declared (s : Schema) : Selected → Prop
  | .columns names => names ≠ [] ∧ ∀ name ∈ names, name ∈ s.names
  | _ => True

def Condition.Declared (s : Schema) : Condition → Prop
  | .equalities columns => columns ≠ [] ∧ ∀ column ∈ columns, column ∈ s.names
  | _ => True

inductive Statement.Declared (s : Schema) (table : TableName) : Statement → Prop where
  | createTable (definitions : List String) (options : TableOptions) :
    Declared s table (.createTable table definitions options)
  | createIndex {index : IndexShape} (hname : isIdentifier index.name = true)
      (hne : index.columns ≠ [])
    (hcolumns : ∀ column ∈ index.columns, column.1 ∈ s.names) :
    Declared s table (.createIndex table index)
  | insert {columns : List String} {conflict : Option Conflict} {returned : Returned}
    (hcolumns : ∀ column ∈ columns, column ∈ s.names) (hreturned : returned.Declared s) :
    Declared s table (.insert table columns conflict returned)
  | select {selected : Selected} {distinct : Bool} {condition : Condition}
      {orderBy : List (String × Direction)}
    {limit : Bool} (hselected : selected.Declared s) (hcondition : condition.Declared s)
    (horder : ∀ key ∈ orderBy, key.1 = "rowid" ∨ key.1 ∈ s.names) :
    Declared s table (.select table selected distinct condition orderBy limit)
  | update {set : List String} {conflict : Option Conflict} {condition : Condition} (hne : set ≠ [])
    (hset : ∀ column ∈ set, column ∈ s.names) (hcondition : condition.Declared s) :
    Declared s table (.update table set conflict condition)
  | delete {condition : Condition} {returned : Returned} (hcondition : condition.Declared s)
    (hreturned : returned.Declared s) : Declared s table (.delete table condition returned)

namespace Schema

variable {s : Schema}

theorem isIdentifier_of_mem {name : String} (h : name ∈ s.names) : isIdentifier name = true := by
  obtain ⟨c, -, rfl⟩ := List.mem_map.mp h
  exact c.isIdentifier_name

theorem declared_of_ordered {names columns : List String} (h : s.ordered names = .ok columns) :
    ∀ column ∈ columns, column ∈ s.names := by
  obtain ⟨-, rfl⟩ := ordered_eq_ok.mp h
  exact fun column hcolumn => (List.mem_filter.mp hcolumn).1

theorem declared_of_chosen {choice : ColumnChoice} {columns : List String}
    (h : s.chosen choice = .ok columns) :
    ∀ column ∈ columns, column ∈ s.names := by
  cases choice with
  | all =>
    cases h
    exact fun _ => id
  | only names => exact declared_of_ordered h

theorem declared_of_returned {returning : Option Returning} {r : Returned}
    (h : s.returned returning = .ok r) :
    r.Declared s := by
  rcases returning with _ | _ | names
  · cases h
    trivial
  · cases h
    trivial
  · obtain ⟨columns, hcolumns, h⟩ := except_bind_eq_ok.mp h
    split at h
    · cases h
    next hne =>
      cases h
      exact ⟨fun hnil => hne (List.isEmpty_iff.mpr hnil), declared_of_ordered hcolumns⟩

theorem declared_of_selected {projection : Projection} {selected : Selected}
    (h : s.selected projection = .ok selected) : selected.Declared s := by
  cases projection with
  | columns choice =>
    obtain ⟨columns, hcolumns, h⟩ := except_bind_eq_ok.mp h
    split at h
    · cases h
    next hne =>
      cases h
      exact ⟨fun hnil => hne (List.isEmpty_iff.mpr hnil), declared_of_chosen hcolumns⟩
  | count =>
    cases h
    trivial
  | rowidAndAll =>
    cases h
    trivial

theorem declared_of_condition {set : List String} {predicate : Predicate} {condition : Condition}
    (h : s.condition set predicate = .ok condition) : condition.Declared s := by
  cases predicate with
  | all =>
    cases h
    trivial
  | columns names =>
    obtain ⟨columns, hcolumns, h⟩ := except_bind_eq_ok.mp h
    split at h
    · cases h
    next hne =>
      cases h
      exact ⟨fun hnil => hne (List.isEmpty_iff.mpr hnil), declared_of_ordered hcolumns⟩
  | raw clause params =>
    obtain ⟨rfl, -⟩ := condition_raw h
    trivial

theorem mem_of_check {name : String} (h : s.check name = .ok ()) : name ∈ s.names := by
  obtain ⟨c, hc, -⟩ := except_map_eq_ok.mp h
  exact mem_names.mpr ⟨c, hc⟩

theorem mem_of_checkSortKey {name : String} (h : s.checkSortKey name = .ok ()) :
    name = "rowid" ∨ name ∈ s.names := by
  rw [checkSortKey] at h
  split at h
  next hrowid => exact .inl hrowid
  · exact .inr (mem_of_check h)

end Schema

/-- What an accepted shape says is declared. -/
theorem Statement.declared_of_ofShape {s : Schema} {table : TableName} {shape : Shape}
    {statement : Statement} (h : ofShape s table shape = .ok statement) :
    statement.Declared s table := by
  cases shape with
  | createTable options =>
    cases h
    exact .createTable _ _
  | createIndex index =>
    simp only [ofShape] at h
    split at h
    · cases h
    next hname =>
      split at h
      · cases h
      next hne =>
        obtain ⟨⟨⟩, hcolumns, h⟩ := except_bind_eq_ok.mp h
        cases h
        refine .createIndex (by simpa using hname) (fun hnil => hne (List.isEmpty_iff.mpr hnil)) ?_
        exact fun column hcolumn => Schema.mem_of_check (Clause.forM_eq_ok hcolumns column hcolumn)
  | insert shape =>
    obtain ⟨columns, hcolumns, h⟩ := except_bind_eq_ok.mp h
    obtain ⟨returned, hreturned, h⟩ := except_bind_eq_ok.mp h
    cases h
    exact .insert (Schema.declared_of_chosen hcolumns) (Schema.declared_of_returned hreturned)
  | select shape =>
    obtain ⟨selected, hselected, h⟩ := except_bind_eq_ok.mp h
    obtain ⟨condition, hcondition, h⟩ := except_bind_eq_ok.mp h
    obtain ⟨⟨⟩, horder, h⟩ := except_bind_eq_ok.mp h
    cases h
    refine .select (Schema.declared_of_selected hselected)
      (Schema.declared_of_condition hcondition) ?_
    exact fun key hkey => Schema.mem_of_checkSortKey (Clause.forM_eq_ok horder key hkey)
  | update shape =>
    obtain ⟨set, hset, h⟩ := except_bind_eq_ok.mp h
    split at h
    · cases h
    next hne =>
      obtain ⟨condition, hcondition, h⟩ := except_bind_eq_ok.mp h
      cases h
      exact .update (fun hnil => hne (List.isEmpty_iff.mpr hnil)) (Schema.declared_of_ordered hset)
        (Schema.declared_of_condition hcondition)
  | delete shape =>
    obtain ⟨condition, hcondition, h⟩ := except_bind_eq_ok.mp h
    obtain ⟨returned, hreturned, h⟩ := except_bind_eq_ok.mp h
    cases h
    exact .delete (Schema.declared_of_condition hcondition) (Schema.declared_of_returned hreturned)

def Condition.Plain : Condition → Prop
  | .clause _ => False
  | _ => True

/-- A statement that holds no text of the caller and no definitions of columns. -/
def Statement.Plain : Statement → Prop
  | .createTable .. => False
  | .select _ _ _ condition _ _ => condition.Plain
  | .update _ _ _ condition => condition.Plain
  | .delete _ condition _ => condition.Plain
  | _ => True

theorem Schema.plain_of_condition {s : Schema} {set : List String} {predicate : Predicate}
    {condition : Condition} (h : s.condition set predicate = .ok condition)
    (hraw : predicate.isRaw = false) : condition.Plain := by
  cases predicate with
  | all =>
    cases h
    trivial
  | columns names =>
    obtain ⟨columns, hcolumns, h⟩ := except_bind_eq_ok.mp h
    split at h
    · cases h
    next =>
      cases h
      trivial
  | raw clause params => cases hraw

theorem Statement.plain_of_ofShape {s : Schema} {table : TableName} {shape : Shape}
    {statement : Statement} (h : ofShape s table shape = .ok statement) (hraw : shape.isRaw = false)
    (hnew : ∀ options, shape ≠ .createTable options) : statement.Plain := by
  cases shape with
  | createTable options => exact absurd rfl (hnew options)
  | createIndex index =>
    simp only [ofShape] at h
    split at h
    · cases h
    · split at h
      · cases h
      · obtain ⟨⟨⟩, -, h⟩ := except_bind_eq_ok.mp h
        cases h
        trivial
  | insert shape =>
    obtain ⟨columns, -, h⟩ := except_bind_eq_ok.mp h
    obtain ⟨returned, -, h⟩ := except_bind_eq_ok.mp h
    cases h
    trivial
  | select shape =>
    obtain ⟨selected, -, h⟩ := except_bind_eq_ok.mp h
    obtain ⟨condition, hcondition, h⟩ := except_bind_eq_ok.mp h
    obtain ⟨⟨⟩, -, h⟩ := except_bind_eq_ok.mp h
    cases h
    exact Schema.plain_of_condition hcondition hraw
  | update shape =>
    obtain ⟨set, -, h⟩ := except_bind_eq_ok.mp h
    split at h
    · cases h
    · obtain ⟨condition, hcondition, h⟩ := except_bind_eq_ok.mp h
      cases h
      exact Schema.plain_of_condition hcondition hraw
  | delete shape =>
    obtain ⟨condition, hcondition, h⟩ := except_bind_eq_ok.mp h
    obtain ⟨returned, -, h⟩ := except_bind_eq_ok.mp h
    cases h
    exact Schema.plain_of_condition hcondition hraw

end TypedTables
