import Mathlib.Data.List.Nodup
import TypedTables.Proofs.Building

/-!
# Columns in the order of the table

Lists of columns are put into the order of the table before a statement is made of them, and again
when it is checked. The second time changes nothing.
-/
namespace TypedTables

namespace Schema

variable {s : Schema}

theorem contains_iff_mem (s : Schema) {name : String} :
    s.contains name = true ↔ name ∈ s.names := by
  simp [contains, column?, names, List.find?_isSome]

theorem mem_names {name : String} : name ∈ s.names ↔ ∃ c, s.column name = .ok c := by
  rw [← contains_iff_mem, contains]
  simp only [column]
  cases s.column? name <;> simp

/-- The column with a name is the one of the columns that has it. -/
theorem column_eq_ok {name : String} {c : Column} :
    s.column name = .ok c ↔ c ∈ s.columns ∧ c.name = name := by
  have hfound : s.column name = .ok c ↔ s.column? name = some c := by
    simp only [column]
    cases s.column? name <;> simp
  rw [hfound, column?]
  constructor
  · intro h
    exact ⟨List.mem_of_find?_eq_some h, by simpa using List.find?_some h⟩
  · rintro ⟨hc, rfl⟩
    cases hd : s.columns.find? (·.name == c.name) with
    | none => simpa using List.find?_eq_none.mp hd c hc
    | some d =>
      have hmem := List.mem_of_find?_eq_some hd
      have hname : d.name = c.name := by simpa using List.find?_some hd
      rw [List.inj_on_of_nodup_map s.names_nodup hmem hc hname]

/-- A name that no column has is reported. -/
theorem column_eq_error_iff {name : String} {e : Error} :
    s.column name = .error e ↔ s.contains name ≠ true ∧ e = .schema (.unknownColumn name) := by
  rw [column, contains]
  cases s.column? name <;> simp [eq_comm]

/-- The names that `ordered` takes, and what it makes of them. -/
theorem ordered_eq_ok {names columns : List String} :
    s.ordered names = .ok columns ↔
      (∀ name ∈ names, name ∈ s.names) ∧ columns = s.names.filter names.contains := by
  simp only [ordered]
  cases hf : names.find? (!s.contains ·) with
  | some name =>
    have hmem := List.mem_of_find?_eq_some hf
    have hnot : name ∉ s.names := by
      have := List.find?_some hf
      rw [← s.contains_iff_mem]
      simpa using this
    simp only [reduceCtorEq, false_iff, not_and]
    exact fun h => absurd (h name hmem) hnot
  | none =>
    have hall : ∀ name ∈ names, name ∈ s.names := by
      intro name hm
      rw [← s.contains_iff_mem]
      simpa using List.find?_eq_none.mp hf name hm
    simp only [Except.ok.injEq]
    exact ⟨fun h => ⟨hall, h.symm⟩, fun h => h.2.symm⟩

theorem mem_ordered_iff {names columns : List String} (h : s.ordered names = .ok columns)
    {name : String} : name ∈ columns ↔ name ∈ names := by
  obtain ⟨hall, rfl⟩ := ordered_eq_ok.mp h
  simp only [List.mem_filter, List.contains_iff_mem]
  exact ⟨fun h => h.2, fun h => ⟨hall name h, h⟩⟩

/-- Columns that are in order stay as they are. -/
theorem ordered_ordered {names columns : List String} (h : s.ordered names = .ok columns) :
    s.ordered columns = .ok columns := by
  have hmem : ∀ name, name ∈ columns ↔ name ∈ names := fun _ => mem_ordered_iff h
  obtain ⟨hall, rfl⟩ := ordered_eq_ok.mp h
  refine ordered_eq_ok.mpr ⟨fun name hm => (List.mem_filter.mp hm).1, ?_⟩
  refine List.filter_congr ?_
  intro name hn
  rw [Bool.eq_iff_iff, List.contains_iff_mem, List.contains_iff_mem]
  exact (hmem name).symm

end Schema

end TypedTables
