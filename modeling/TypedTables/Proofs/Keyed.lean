import Mathlib.Tactic.Tauto
import TypedTables.Keyed

/-!
# Maps from names as sets of entries

The names of a map are distinct, so that a look-up finds exactly the entries, and a map that is made
of entries has their names.
-/
namespace TypedTables

namespace Keyed

variable {α : Type}

theorem nodup_of_increasing {es : List (String × α)} (h : Increasing es) :
    (es.map (·.1)).Nodup := by
  rw [List.Nodup, List.pairwise_map]
  refine h.imp ?_
  intro a b hlt heq
  rw [heq] at hlt
  exact String.lt_irrefl _ hlt

theorem names_nodup (m : Keyed α) : m.names.Nodup := nodup_of_increasing m.increasing

/-- With distinct names a look-up finds exactly the entries. -/
theorem find?_eq_some_iff_mem {es : List (String × α)} (h : (es.map (·.1)).Nodup) {name : String}
    {a : α} : (es.find? (·.1 == name)).map (·.2) = some a ↔ (name, a) ∈ es := by
  induction es with
  | nil => simp
  | cons e es ih =>
    obtain ⟨n, b⟩ := e
    obtain ⟨hn, hes⟩ := List.nodup_cons.mp h
    by_cases he : n = name
    · subst he
      have hne : (n, a) ∉ es := fun hm => hn (List.mem_map.mpr ⟨_, hm, rfl⟩)
      simp [hne, eq_comm]
    · have hb : (n == name) = false := by simpa using he
      have hne : name ≠ n := fun hm => he hm.symm
      simpa [List.find?_cons, hb, hne] using ih hes

theorem get?_eq_some_iff (m : Keyed α) {name : String} {a : α} :
    m.get? name = some a ↔ (name, a) ∈ m.entries := find?_eq_some_iff_mem m.names_nodup

theorem mem_names_iff (m : Keyed α) {name : String} :
    name ∈ m.names ↔ ∃ a, m.get? name = some a := by
  simp only [names, List.mem_map, get?_eq_some_iff]
  constructor
  · rintro ⟨e, he, rfl⟩
    exact ⟨e.2, he⟩
  · rintro ⟨a, ha⟩
    exact ⟨_, ha, rfl⟩

theorem mem_names_putEntry {name other : String} {a : α} {es : List (String × α)} :
    other ∈ (putEntry name a es).map (·.1) ↔ other = name ∨ other ∈ es.map (·.1) := by
  induction es with
  | nil => simp [putEntry]
  | cons e es ih =>
    simp only [putEntry]
    split
    · simp
    split
    next heq => simp [heq]
    · simp only [List.map_cons, List.mem_cons, ih]
      exact or_left_comm

theorem mem_names_sortEntries {other : String} (es : List (String × α)) :
    other ∈ (sortEntries es).map (·.1) ↔ other ∈ es.map (·.1) := by
  suffices h : ∀ acc :
      List (String × α), other ∈ (es.foldl (fun es e => putEntry e.1 e.2 es) acc).map (·.1) ↔
      other ∈ acc.map (·.1) ∨ other ∈ es.map (·.1) by
    simpa [sortEntries] using h []
  induction es with
  | nil => simp
  | cons e es ih =>
    intro acc
    rw [List.foldl_cons, ih, mem_names_putEntry, List.map_cons, List.mem_cons]
    tauto

/-- An entry whose name comes after all others is put at the end. -/
theorem putEntry_last {name : String} (a : α) {es : List (String × α)} (h : ∀ e ∈ es, e.1 < name) :
    putEntry name a es = es ++ [(name, a)] := by
  induction es with
  | nil => rfl
  | cons e es ih =>
    have he : e.1 < name := h e List.mem_cons_self
    have hnot : ¬ name < e.1 := fun hlt => String.lt_irrefl _ (String.lt_trans he hlt)
    have hne : name ≠ e.1 := fun heq => String.lt_irrefl _ (heq ▸ he)
    rw [putEntry, if_neg hnot, if_neg hne, ih fun e' he' => h e' (List.mem_cons_of_mem _ he'),
      List.cons_append]

/-- Entries in increasing order stay as they are. -/
theorem sortEntries_of_increasing {es : List (String × α)} (h : Increasing es) :
    sortEntries es = es := by
  suffices hfold : ∀ acc : List (String × α), (∀ e ∈ es, ∀ x ∈ acc, x.1 < e.1) →
      es.foldl (fun es e => putEntry e.1 e.2 es) acc = acc ++ es by
    simpa [sortEntries] using hfold [] (by simp)
  induction es with
  | nil => simp
  | cons e es ih =>
    obtain ⟨he, hes⟩ := List.pairwise_cons.mp h
    intro acc hacc
    rw [List.foldl_cons, putEntry_last e.2 (hacc e List.mem_cons_self), ih hes, List.append_assoc,
      List.singleton_append]
    intro e' he' x hx
    rcases List.mem_append.mp hx with hx | hx
    · exact hacc e' (List.mem_cons_of_mem _ he') x hx
    · obtain rfl := List.mem_singleton.mp hx
      exact he e' he'

/-- The names of a map that is made of entries are the names of the entries. -/
theorem mem_names_ofList {es : List (String × α)} {name : String} :
    name ∈ (ofList es).names ↔ name ∈ es.map (·.1) := mem_names_sortEntries es

/-- Taking a name out of a map leaves the other names. -/
theorem get?_erase (m : Keyed α) (name other : String) :
    (m.erase name).get? other = if other = name then none else m.get? other := by
  ext a
  rw [get?_eq_some_iff, erase, List.mem_filter, ← get?_eq_some_iff]
  by_cases h : other = name <;> simp [h]

theorem mem_names_erase (m : Keyed α) {name other : String} :
    other ∈ (m.erase name).names ↔ other ≠ name ∧ other ∈ m.names := by
  simp only [mem_names_iff, get?_erase]
  by_cases h : other = name <;> simp [h]

end Keyed

end TypedTables
