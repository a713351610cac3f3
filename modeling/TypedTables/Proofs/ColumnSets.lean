import Mathlib.Data.List.Destutter
import TypedTables.Example.Tables
import TypedTables.Proofs.UpdatePairs

/-!
# Lists of columns as sets

What is made of a list of columns depends on which columns occur in it, and neither on their order
nor on how often they occur. The columns can be found by their places in the table, too: the places
are sorted, repeated ones are left out, and a name is looked up for each that is left.
-/
namespace TypedTables

/-! ### Places -/

namespace Schema

variable {s : Schema} {names columns : List String}

def place (s : Schema) (name : String) : Except Error (Fin s.names.length) :=
  match s.names.finIdxOf? name with
  | some i => .ok i
  | none => .error (.schema (.unknownColumn name))

def byPlaces (s : Schema) (names : List String) : Except Error (List String) := do
  let places ← names.mapM s.place
  .ok ((places.mergeSort.destutter (· ≠ ·)).map s.names.get)

/-- What a strictly increasing list of places selects, if the places are those of the names that a
list holds. -/
theorem map_get_of_increasing {places : List (Fin s.names.length)}
    (hplaces : places.Pairwise (· < ·)) (hmem : ∀ i, i ∈ places ↔ s.names.get i ∈ names) :
    places.map s.names.get = s.names.filter names.contains := by
  have hall : places = (List.finRange s.names.length).filter (names.contains ∘ s.names.get) := by
    refine hplaces.eq_of_mem_iff ((List.pairwise_lt_finRange _).filter _) fun i => ?_
    simp [hmem]
  calc places.map s.names.get
      = ((List.finRange s.names.length).map s.names.get).filter names.contains := by
        rw [hall, List.filter_map]
    _ = s.names.filter names.contains := by rw [List.map_get_finRange]

theorem place_eq_ok {name : String} {i : Fin s.names.length} :
    s.place name = .ok i ↔ s.names.get i = name := by
  have hfound : s.place name = .ok i ↔ s.names.finIdxOf? name = some i := by
    rw [place]
    cases s.names.finIdxOf? name <;> simp
  rw [hfound, List.finIdxOf?_eq_some_iff, List.get_eq_getElem]
  refine ⟨fun h => h.1, fun h => ⟨h, fun j hj hsame => ?_⟩⟩
  exact absurd (s.names_nodup.getElem_inj_iff.mp (hsame.trans h.symm)) (by omega)

theorem place_of_notMem {name : String} (h : name ∉ s.names) :
    s.place name = .error (.schema (.unknownColumn name)) := by
  rw [place, List.finIdxOf?_eq_none_iff.mpr h]

/-- The places of declared names. -/
theorem exists_places (h : ∀ name ∈ names, name ∈ s.names) :
    ∃ places, names.mapM s.place = .ok places ∧ ∀ i, i ∈ places ↔ s.names.get i ∈ names := by
  induction names with
  | nil => exact ⟨[], rfl, by simp⟩
  | cons name names ih =>
    obtain ⟨places, hplaces, hmem⟩ := ih fun n hn => h n (List.mem_cons_of_mem name hn)
    obtain ⟨i, hi⟩ := List.mem_iff_get.mp (h name List.mem_cons_self)
    refine ⟨i :: places, ?_, fun j => ?_⟩
    · rw [List.mapM_cons, place_eq_ok.mpr hi, hplaces]
      rfl
    · have hnodup : s.names.Nodup := s.names_nodup
      rw [List.mem_cons, List.mem_cons, hmem, ← hi, hnodup.get_inj_iff]

/-- The first name that is not declared is reported. -/
theorem places_of_notMem {before after : List String} {name : String}
    (hbefore : ∀ n ∈ before, n ∈ s.names) (h : name ∉ s.names) :
    (before ++ name :: after).mapM s.place = .error (.schema (.unknownColumn name)) := by
  obtain ⟨places, hplaces, -⟩ := exists_places hbefore
  rw [List.mapM_append, hplaces, List.mapM_cons, place_of_notMem h]
  rfl

/-- Lists of columns are put in order, or refused for the first name that is not declared. -/
theorem ordered_eq_error {e : Error} : s.ordered names = .error e ↔
    ∃ before name after, names = before ++ name :: after ∧
      (∀ n ∈ before, n ∈ s.names) ∧ name ∉ s.names ∧
      e = .schema (.unknownColumn name) := by
  have hdeclared : ∀ name, (!s.contains name) = true ↔ name ∉ s.names := by
    intro name
    rw [← s.contains_iff_mem, Bool.not_eq_true', Bool.not_eq_true]
  have hfirst : s.ordered names = .error e ↔
      ∃ name, names.find? (!s.contains ·) = some name ∧ e = .schema (.unknownColumn name) := by
    rw [ordered]
    cases names.find? (!s.contains ·) <;> simp [eq_comm]
  rw [hfirst]
  constructor
  · rintro ⟨name, hfind, rfl⟩
    obtain ⟨hname, before, after, rfl, hbefore⟩ := List.find?_eq_some_iff_append.mp hfind
    refine ⟨before, name, after, rfl, fun n hn => ?_, (hdeclared name).mp hname, rfl⟩
    exact not_not.mp ((hdeclared n).not.mp (by simpa using hbefore n hn))
  · rintro ⟨before, name, after, rfl, hbefore, hname, rfl⟩
    refine ⟨name, List.find?_eq_some_iff_append.mpr ⟨(hdeclared name).mpr hname, before,
      after, rfl, ?_⟩, rfl⟩
    intro n hn
    simpa using (s.contains_iff_mem).mpr (hbefore n hn)

/-- What a list is put in order to: its names, each once, as they follow one another in the
table. -/
theorem ordered_eq_ok_iff_sublist : s.ordered names = .ok columns ↔
    (∀ name ∈ names, name ∈ s.names) ∧ columns.Sublist s.names ∧ ∀ name,
    name ∈ columns ↔ name ∈ names := by
  constructor
  · intro h
    obtain ⟨hall, rfl⟩ := ordered_eq_ok.mp h
    exact ⟨hall, List.filter_sublist, fun name => mem_ordered_iff h⟩
  · rintro ⟨hall, hsublist, hmem⟩
    have hfilter : columns.Sublist (s.names.filter names.contains) := by
      have hself : columns.filter names.contains = columns :=
        List.filter_eq_self.mpr fun name hn => by simpa using (hmem name).mp hn
      exact hself ▸ hsublist.filter _
    have hnodup : (s.names.filter names.contains).Nodup := List.Nodup.filter _ s.names_nodup
    have hsubset : s.names.filter names.contains ⊆ columns := by
      intro name hn
      exact (hmem name).mpr (by simpa using (List.mem_filter.mp hn).2)
    exact ordered_eq_ok.mpr ⟨hall,
      hfilter.eq_of_length_le (List.subperm_of_subset hnodup hsubset).length_le⟩

/-- Columns that are found by their places are in order. -/
theorem byPlaces_eq_ordered : s.byPlaces names = s.ordered names := by
  cases hordered : s.ordered names with
  | error e =>
    obtain ⟨before, name, after, rfl, hbefore, hname, rfl⟩ := ordered_eq_error.mp hordered
    rw [byPlaces, places_of_notMem hbefore hname]
    rfl
  | ok columns =>
    obtain ⟨hall, rfl⟩ := ordered_eq_ok.mp hordered
    obtain ⟨places, hplaces, hmem⟩ := exists_places hall
    have hsorted : places.mergeSort.Pairwise (· ≤ ·) := List.pairwise_mergeSort' _ _
    have hincreasing : places.mergeSort.dedup.Pairwise (· < ·) := by
      have hle := hsorted.sublist (List.dedup_sublist _)
      exact hle.imp₂ (fun _ _ h hne => lt_of_le_of_ne h hne) (List.nodup_dedup _)
    rw [byPlaces, hplaces, except_ok_bind, hsorted.destutter_eq_dedup,
      map_get_of_increasing hincreasing]
    intro i
    rw [List.mem_dedup, List.mem_mergeSort, hmem]

end Schema

/-! ### Shapes -/

inductive ColumnChoice.Alike : ColumnChoice → ColumnChoice → Prop where
  | all : Alike .all .all
  | only {names names' : List String} (h : ∀ name, name ∈ names ↔ name ∈ names') :
      Alike (.only names) (.only names')

inductive Predicate.Alike : Predicate → Predicate → Prop where
  | all : Alike .all .all
  | columns {names names' : List String} (h : ∀ name, name ∈ names ↔ name ∈ names') :
      Alike (.columns names) (.columns names')
  | raw (clause : String) {params params' : List String} (h : ∀ name,
      name ∈ params ↔ name ∈ params') :
      Alike (.raw clause params) (.raw clause params')

inductive Returning.Alike : Option Returning → Option Returning → Prop where
  | none : Alike none none
  | all : Alike (some .all) (some .all)
  | columns {names names' : List String} (h : ∀ name, name ∈ names ↔ name ∈ names') :
      Alike (some (.columns names)) (some (.columns names'))

inductive Projection.Alike : Projection → Projection → Prop where
  | columns {choice choice' : ColumnChoice} (h : choice.Alike choice') :
      Alike (.columns choice) (.columns choice')
  | count : Alike .count .count
  | rowidAndAll : Alike .rowidAndAll .rowidAndAll

/-- Shapes of statements that differ at most in the order of their lists of names, and in how often
a name occurs in them. -/
inductive Shape.Alike : Shape → Shape → Prop where
  | insert {columns columns' : ColumnChoice} {returning returning' : Option Returning}
      (conflict : Option Conflict) (hcolumns : columns.Alike columns')
      (hreturning : Returning.Alike returning returning') :
      Alike (.insert ⟨columns, conflict, returning⟩) (.insert ⟨columns', conflict, returning'⟩)
  | select {projection projection' : Projection}
      {predicate predicate' : Predicate} (distinct : Bool)
      (orderBy : List (String × Direction)) (limit : Bool)
        (hprojection : projection.Alike projection')
      (hpredicate : predicate.Alike predicate') :
      Alike (.select ⟨projection, distinct, predicate, orderBy, limit⟩)
        (.select ⟨projection', distinct, predicate', orderBy, limit⟩)
  | update {set set' : List String} {predicate predicate' : Predicate} (conflict : Option Conflict)
      (hset : ∀ name, name ∈ set ↔ name ∈ set') (hpredicate : predicate.Alike predicate') :
      Alike (.update ⟨set, predicate, conflict⟩) (.update ⟨set', predicate', conflict⟩)
  | delete {predicate predicate' : Predicate} {returning returning' : Option Returning}
      (hpredicate : predicate.Alike predicate')
        (hreturning : Returning.Alike returning returning') :
      Alike (.delete ⟨predicate, returning⟩) (.delete ⟨predicate', returning'⟩)

theorem ColumnChoice.Alike.symm {choice choice' : ColumnChoice} (h : choice.Alike choice') :
    choice'.Alike choice := by
  cases h with
  | all => exact .all
  | only h => exact .only fun name => (h name).symm

theorem Predicate.Alike.symm {predicate predicate' : Predicate} (h : predicate.Alike predicate') :
    predicate'.Alike predicate := by
  cases h with
  | all => exact .all
  | columns h => exact .columns fun name => (h name).symm
  | raw clause h => exact .raw clause fun name => (h name).symm

theorem Returning.Alike.symm {returning returning' : Option Returning}
    (h : Returning.Alike returning returning') :
    Returning.Alike returning' returning := by
  cases h with
  | none => exact .none
  | all => exact .all
  | columns h => exact .columns fun name => (h name).symm

theorem Projection.Alike.symm {projection projection' : Projection}
    (h : projection.Alike projection') :
    projection'.Alike projection := by
  cases h with
  | columns h => exact .columns h.symm
  | count => exact .count
  | rowidAndAll => exact .rowidAndAll

theorem Shape.Alike.symm {shape shape' : Shape} (h : shape.Alike shape') : shape'.Alike shape := by
  cases h with
  | insert conflict hcolumns hreturning => exact .insert conflict hcolumns.symm hreturning.symm
  | select distinct orderBy limit hprojection hpredicate =>
    exact .select distinct orderBy limit hprojection.symm hpredicate.symm
  | update conflict hset hpredicate =>
    exact .update conflict (fun name => (hset name).symm) hpredicate.symm
  | delete hpredicate hreturning => exact .delete hpredicate.symm hreturning.symm

namespace Schema

variable {s : Schema}

theorem chosen_congr {choice choice' : ColumnChoice} {columns : List String}
    (h : choice.Alike choice') (hchosen : s.chosen choice = .ok columns) :
    s.chosen choice' = .ok columns := by
  cases h with
  | all => exact hchosen
  | only h => exact ordered_congr h hchosen

theorem condition_congr {set : List String} {predicate predicate' : Predicate}
    {condition : Condition} (h : predicate.Alike predicate')
    (hcondition : s.condition set predicate = .ok condition) :
    s.condition set predicate' = .ok condition := by
  cases h with
  | all => exact hcondition
  | columns h =>
    obtain ⟨columns, hcolumns, hrest⟩ := except_bind_eq_ok.mp hcondition
    exact except_bind_eq_ok.mpr ⟨columns, ordered_congr h hcolumns, hrest⟩
  | raw clause h => exact condition_raw_congr h hcondition

theorem returned_congr {returning returning' : Option Returning} {returned : Returned}
    (h : Returning.Alike returning returning') (hreturned : s.returned returning = .ok returned) :
    s.returned returning' = .ok returned := by
  cases h with
  | none => exact hreturned
  | all => exact hreturned
  | columns h =>
    obtain ⟨columns, hcolumns, hrest⟩ := except_bind_eq_ok.mp hreturned
    exact except_bind_eq_ok.mpr ⟨columns, ordered_congr h hcolumns, hrest⟩

theorem selected_congr {projection projection' : Projection} {selected : Selected}
    (h : projection.Alike projection') (hselected : s.selected projection = .ok selected) :
    s.selected projection' = .ok selected := by
  cases h with
  | columns h =>
    obtain ⟨columns, hcolumns, hrest⟩ := except_bind_eq_ok.mp hselected
    exact except_bind_eq_ok.mpr ⟨columns, chosen_congr h hcolumns, hrest⟩
  | count => exact hselected
  | rowidAndAll => exact hselected

end Schema

/-- Of shapes that are alike the same statement is made. -/
theorem Statement.ofShape_congr {s : Schema} {table : TableName} {shape shape' : Shape}
    {statement : Statement} (h : shape.Alike shape')
    (hstatement : ofShape s table shape = .ok statement) :
    ofShape s table shape' = .ok statement := by
  cases h with
  | insert conflict hcolumns hreturning =>
    obtain ⟨columns, hchosen, hrest⟩ := except_bind_eq_ok.mp hstatement
    obtain ⟨returned, hreturned, hrest⟩ := except_bind_eq_ok.mp hrest
    exact except_bind_eq_ok.mpr ⟨columns, Schema.chosen_congr hcolumns hchosen,
      except_bind_eq_ok.mpr ⟨returned, Schema.returned_congr hreturning hreturned, hrest⟩⟩
  | select distinct orderBy limit hprojection hpredicate =>
    obtain ⟨selected, hselected, hrest⟩ := except_bind_eq_ok.mp hstatement
    obtain ⟨condition, hcondition, hrest⟩ := except_bind_eq_ok.mp hrest
    exact except_bind_eq_ok.mpr ⟨selected, Schema.selected_congr hprojection hselected,
      except_bind_eq_ok.mpr ⟨condition, Schema.condition_congr hpredicate hcondition, hrest⟩⟩
  | update conflict hset hpredicate =>
    obtain ⟨set, hordered, hrest⟩ := except_bind_eq_ok.mp hstatement
    refine except_bind_eq_ok.mpr ⟨set, Schema.ordered_congr hset hordered, ?_⟩
    split at hrest
    · cases hrest
    next hnonempty =>
      obtain ⟨condition, hcondition, hrest⟩ := except_bind_eq_ok.mp hrest
      rw [if_neg hnonempty]
      exact except_bind_eq_ok.mpr ⟨condition, Schema.condition_congr hpredicate hcondition, hrest⟩
  | delete hpredicate hreturning =>
    obtain ⟨condition, hcondition, hrest⟩ := except_bind_eq_ok.mp hstatement
    obtain ⟨returned, hreturned, hrest⟩ := except_bind_eq_ok.mp hrest
    exact except_bind_eq_ok.mpr ⟨condition, Schema.condition_congr hpredicate hcondition,
      except_bind_eq_ok.mpr ⟨returned, Schema.returned_congr hreturning hreturned, hrest⟩⟩

/-- Shapes that are alike have the same text, if they have one. -/
theorem Schema.statementText_congr {s : Schema} {table : TableName} {shape shape' : Shape}
    (h : shape.Alike shape') (text : String) :
    s.statementText table shape = .ok text ↔ s.statementText table shape' = .ok text := by
  rw [statementText, statementText, except_map_eq_ok, except_map_eq_ok]
  constructor
  · rintro ⟨statement, hstatement, htext⟩
    exact ⟨statement, Statement.ofShape_congr h hstatement, htext⟩
  · rintro ⟨statement, hstatement, htext⟩
    exact ⟨statement, Statement.ofShape_congr h.symm hstatement, htext⟩

/-- A list is put in order to the declared columns that occur in it, each once and in the order of
the table; a name that is not declared is an error, and the first one is reported. Sorting the
places of the columns comes to the same. Of two shapes that are alike either both are refused or
both have the same text, and so they are answered by a cache, whatever was asked for before. -/
theorem column_list_is_set (s : Schema) :
    (∀ names columns, s.ordered names = .ok columns ↔ (∀ name ∈ names, name ∈ s.names) ∧
      columns.Sublist s.names ∧ columns.Nodup ∧ ∀ name, name ∈ columns ↔ name ∈ names) ∧
    (∀ names e, s.ordered names = .error e ↔ ∃ before name after, names = before ++ name :: after ∧
      (∀ n ∈ before, n ∈ s.names) ∧ name ∉ s.names ∧ e = .schema (.unknownColumn name)) ∧
    (∀ names, s.byPlaces names = s.ordered names) ∧
    ∀ (table : TableName) (shape shape' : Shape), shape.Alike shape' → ∀ text,
      (s.statementText table shape = .ok text ↔ s.statementText table shape' = .ok text) ∧
      ∀ earlier earlier',
        (Table.statement shape ((StatementCache.new s table).requested earlier)).1 = .ok text ↔
          (Table.statement shape' ((StatementCache.new s table).requested earlier')).1 =
            .ok text := by
  refine ⟨fun names columns => ?_, fun names e => Schema.ordered_eq_error,
    fun names => Schema.byPlaces_eq_ordered,
    fun table shape shape' h text =>
      ⟨Schema.statementText_congr h text, fun earlier earlier' => ?_⟩⟩
  · rw [Schema.ordered_eq_ok_iff_sublist]
    constructor
    · rintro ⟨hall, hsublist, hmem⟩
      exact ⟨hall, hsublist, hsublist.nodup s.names_nodup, hmem⟩
    · rintro ⟨hall, hsublist, -, hmem⟩
      exact ⟨hall, hsublist, hmem⟩
  · rw [Table.statement_requested, Table.statement_requested]
    exact Schema.statementText_congr h text

open Example

/-- Columns of entries that are listed in another order, some of them twice, are selected and
compared by the same text. -/
theorem column_list_is_set_of_entries :
    entries.statementText entriesName
        (.select ⟨.columns (.only ["kind", "id", "kind"]), false,
          .columns ["id", "id"], [], false⟩) =
      .ok "SELECT id, kind FROM entries WHERE id=:id" ∧
    entries.statementText entriesName
        (.select ⟨.columns (.only ["id", "kind"]), false, .columns ["id"], [], false⟩) =
      .ok "SELECT id, kind FROM entries WHERE id=:id" := by
  obtain ⟨-, -, -, htexts⟩ := column_list_is_set entries
  have halike : Shape.Alike
      (.select ⟨.columns (.only ["kind", "id", "kind"]), false, .columns ["id", "id"], [], false⟩)
      (.select ⟨.columns (.only ["id", "kind"]), false, .columns ["id"], [], false⟩) :=
    .select false [] false (.columns (.only (by simp [or_comm]))) (.columns (by simp))
  have htext := htexts entriesName _ _ halike "SELECT id, kind FROM entries WHERE id=:id"
  have hread : entries.statementText entriesName
      (.select ⟨.columns (.only ["kind", "id", "kind"]), false, .columns ["id", "id"], [], false⟩) =
      .ok "SELECT id, kind FROM entries WHERE id=:id" := by decide
  exact ⟨hread, htext.1.mp hread⟩

end TypedTables
