import Mathlib.Data.List.Induction
import TypedTables.Proofs.InsertedRows

/-!
# The terms of a filter

A filter of equalities chooses the rows for which each of its terms is true. Adding a term narrows
it, unless the column has a term already: then the new term stands in the place of the old one, so
that of a chain of terms only the last one of each column counts.
-/
namespace TypedTables

open Insertion

/-- How an engine reads the WHERE clauses of equalities: without a clause it chooses every row, and
with one those for which each comparison with a bound value is true. -/
structure ReadsEqualities (chooses : String → Params → Cells → Prop)
    (equal : String → Stored → Stored → Prop) (s : Schema) (mark : String) : Prop where
  always : ∀ params row, chooses (Condition.always.text mark) params row
  equalities : ∀ columns params row, columns ≠ [] → columns.Sublist s.names →
    (chooses ((Condition.equalities columns).text mark) params row ↔
      ∀ c ∈ columns, ∃ v, params.get? (mark ++ c) = some v ∧ Matches equal row c v)

/-- A row satisfies that a column equals a value: the value has a stored form, which the row
matches. -/
def Schema.Satisfies (s : Schema) (equal : String → Stored → Stored → Prop)
    (row : Cells) (c : String) (v : Value) : Prop :=
  ∃ stored, s.stored c v = .ok stored ∧ Matches equal row c stored

namespace Filter

/-- A filter is accepted, and an engine chooses a row with its clause and its parameters. -/
def Chooses (f : Filter) (chooses : String → Params → Cells → Prop) (s : Schema)
    (mark : String) (row : Cells) :
    Prop :=
  ∃ predicate params condition, f.compile s mark = .ok (predicate, params) ∧
    s.condition [] predicate = .ok condition ∧ chooses (condition.text mark) params row

/-- Every row, or equalities; no expression of the caller. -/
def IsEquality : Filter → Prop
  | .raw _ _ => False
  | _ => True

/-- The value that a filter compares a column with. -/
def term? : Filter → String → Option Value
  | .eq row, c => row.get? c
  | _, _ => none

def andAll (f : Filter) (terms : List (String × Value)) : Filter :=
  terms.foldl (fun f t => f.and t.1 t.2) f

/-- A term of a list with no later term of the same column. -/
def IsLast (terms : List (String × Value)) (c : String) (v : Value) : Prop :=
  ∃ before after, terms = before ++ (c, v) :: after ∧ c ∉ after.map (·.1)

/-! ### Terms -/

theorem term?_and {f : Filter} (hf : f.IsEquality) (c : String) (v : Value) (other : String) :
    (f.and c v).term? other = if other = c then some v else f.term? other := by
  cases f with
  | raw clause params => cases hf
  | all =>
    by_cases h : other = c
    · rw [if_pos h, h]
      exact Keyed.get?_insert_self _ c v
    · rw [if_neg h]
      exact Keyed.get?_insert_of_ne _ h v
  | eq row =>
    by_cases h : other = c
    · rw [if_pos h, h]
      exact Keyed.get?_insert_self _ c v
    · rw [if_neg h]
      exact Keyed.get?_insert_of_ne _ h v

theorem isEquality_and {f : Filter} (hf : f.IsEquality) (c : String) (v : Value) :
    (f.and c v).IsEquality := by
  cases f with
  | raw clause params => cases hf
  | _ => trivial

theorem andAll_append (f : Filter) (terms : List (String × Value)) (t : String × Value) :
    f.andAll (terms ++ [t]) = (f.andAll terms).and t.1 t.2 := by
  rw [andAll, List.foldl_append]
  rfl

theorem isLast_append {terms : List (String × Value)} {t : String × Value}
    {c : String} {v : Value} :
    IsLast (terms ++ [t]) c v ↔ if c = t.1 then v = t.2 else IsLast terms c v := by
  constructor
  · rintro ⟨before, after, h, hafter⟩
    rcases List.eq_nil_or_concat after with rfl | ⟨after, u, rfl⟩
    · obtain ⟨-, rfl⟩ := List.append_singleton_inj.mp h
      rw [if_pos rfl]
    · rw [List.concat_eq_append, ← List.cons_append, ← List.append_assoc] at h
      obtain ⟨rfl, rfl⟩ := List.append_singleton_inj.mp h
      rw [List.concat_eq_append, List.map_append, List.mem_append, not_or] at hafter
      rw [if_neg fun hc => hafter.2 (List.mem_singleton.mpr hc)]
      exact ⟨before, after, rfl, hafter.1⟩
  · intro h
    split at h
    next hc =>
      rw [hc, h]
      exact ⟨terms, [], rfl, List.not_mem_nil⟩
    next hc =>
      obtain ⟨before, after, rfl, hafter⟩ := h
      refine ⟨before, after ++ [t], by rw [List.append_assoc, List.cons_append], ?_⟩
      rw [List.map_append, List.mem_append, not_or]
      exact ⟨hafter, fun h => hc (List.mem_singleton.mp h)⟩

theorem isLast_iff_mem {terms : List (String × Value)} (h : (terms.map (·.1)).Nodup)
    {c : String} {v : Value} :
    IsLast terms c v ↔ (c, v) ∈ terms := by
  constructor
  · rintro ⟨before, after, rfl, -⟩
    exact List.mem_append_right _ List.mem_cons_self
  · intro hmem
    obtain ⟨before, after, rfl⟩ := List.append_of_mem hmem
    rw [List.map_append, List.map_cons] at h
    exact ⟨before, after, rfl, (List.nodup_cons.mp (List.Nodup.of_append_right h)).1⟩

/-- Of a chain of terms the last one of each column is left. -/
theorem term?_andAll (terms : List (String × Value)) :
    (Filter.all.andAll terms).IsEquality ∧
      ∀ c v, (Filter.all.andAll terms).term? c = some v ↔ IsLast terms c v := by
  induction terms using List.reverseRecOn with
  | nil =>
    refine ⟨trivial, fun c v => iff_of_false (fun h => ?_) ?_⟩
    · cases h
    · rintro ⟨before, after, h, -⟩
      simp at h
  | append_singleton terms t ih =>
    obtain ⟨hf, hterms⟩ := ih
    rw [andAll_append]
    refine ⟨isEquality_and hf _ _, fun c v => ?_⟩
    rw [term?_and hf, isLast_append]
    by_cases h : c = t.1
    · rw [if_pos h, if_pos h, Option.some_inj, eq_comm]
    · rw [if_neg h, if_neg h, hterms]

/-! ### Chosen rows -/

section Chosen

variable {chooses : String → Params → Cells → Prop} {equal : String → Stored →
    Stored → Prop} {s : Schema}
  {mark : String} {row : Cells}

theorem chooses_eq_iff (h : ReadsEqualities chooses equal s mark) {m : Row}
    (hm : m.isEmpty = false) : (Filter.eq m).Chooses chooses s mark row ↔ ∀ c v, m.get? c = some v →
    s.Satisfies equal row c v := by
  constructor
  · rintro ⟨predicate, params, condition, hf, hc, hchosen⟩ c v hv
    rw [compile, hm, if_neg Bool.false_ne_true] at hf
    obtain ⟨columns, hcolumns, hf⟩ := except_bind_eq_ok.mp hf
    obtain ⟨p, hp, hf⟩ := except_bind_eq_ok.mp hf
    cases hf
    obtain ⟨hdeclared, rfl⟩ := Schema.ordered_eq_ok.mp hcolumns
    cases hc.symm.trans (Table.compile_eq hm hdeclared hp).2
    have hname : c ∈ s.names.filter m.names.contains :=
      (Schema.mem_ordered_iff hcolumns).mpr (m.mem_names_iff.mpr ⟨v, hv⟩)
    have hterms := (h.equalities _ _ _ (List.ne_nil_of_mem hname) List.filter_sublist).mp hchosen
    obtain ⟨stored, hget, hmatches⟩ := hterms c hname
    obtain ⟨stored', hstored, hget'⟩ := (Schema.encodeRow_spec hp).2 c v hv
    cases hget.symm.trans hget'
    exact ⟨stored, hstored, hmatches⟩
  · intro hall
    obtain ⟨p, hp⟩ : ∃ p, s.encodeRow m mark = .ok p :=
      Schema.exists_encodeRow fun c v hv => (hall c v hv).imp fun _ hstored => hstored.1
    have hdeclared : ∀ c ∈ m.names, c ∈ s.names := by
      intro c hc
      obtain ⟨v, hv⟩ := m.mem_names_iff.mp hc
      obtain ⟨stored, hstored, -⟩ := hall c v hv
      obtain ⟨column, hcolumn, -⟩ := except_bind_eq_ok.mp hstored
      exact Schema.mem_names.mpr ⟨column, hcolumn⟩
    obtain ⟨hf, hc⟩ := Table.compile_eq hm hdeclared hp
    refine ⟨_, p, _, hf, hc, ?_⟩
    refine (h.equalities _ _ _ (Table.compared_ne_nil hm hdeclared) List.filter_sublist).mpr
      fun c hcolumn => ?_
    obtain ⟨v, hv⟩ := m.mem_names_iff.mp (List.contains_iff_mem.mp (List.mem_filter.mp hcolumn).2)
    obtain ⟨stored, hstored, hget⟩ := (Schema.encodeRow_spec hp).2 c v hv
    obtain ⟨stored', hstored', hmatches⟩ := hall c v hv
    cases hstored.symm.trans hstored'
    exact ⟨stored, hget, hmatches⟩

/-- A filter of equalities chooses the rows that satisfy each of its terms; only one without any is
refused. -/
theorem chooses_iff (h : ReadsEqualities chooses equal s mark) {f : Filter} (hf : f.IsEquality)
    (hsome : ∀ m, f = .eq m → m.isEmpty = false) :
    f.Chooses chooses s mark row ↔ ∀ c v, f.term? c = some v → s.Satisfies equal row c v := by
  cases f with
  | raw clause params => cases hf
  | all =>
    refine iff_of_true ⟨.all, .empty, .always, rfl, rfl, h.always _ _⟩ fun c v hterm => ?_
    cases hterm
  | eq m => exact chooses_eq_iff h (hsome m rfl)

/-- A term that was added is a term. -/
theorem isEmpty_of_and {f : Filter} {c : String} {v : Value} (hf : f.IsEquality) {m : Row}
    (hm : f.and c v = .eq m) : m.isEmpty = false := by
  have hterm := term?_and hf c v c
  rw [if_pos rfl, hm, term?, Keyed.get?_eq_some_iff] at hterm
  exact List.isEmpty_eq_false_iff.mpr (List.ne_nil_of_mem hterm)

/-- A filter with a term added chooses the rows that satisfy that term and those of the other
columns. -/
theorem chooses_and_iff (h : ReadsEqualities chooses equal s mark) {f : Filter}
    (hf : f.IsEquality) (c : String) (v : Value) :
    (f.and c v).Chooses chooses s mark row ↔
      (∀ other w, other ≠ c → f.term? other = some w → s.Satisfies equal row other w) ∧
        s.Satisfies equal row c v := by
  rw [chooses_iff h (isEquality_and hf c v) fun m hm => isEmpty_of_and hf hm]
  constructor
  · intro hall
    refine ⟨fun other w hne hterm => hall other w ?_, hall c v ?_⟩
    · rw [term?_and hf, if_neg hne, hterm]
    · rw [term?_and hf, if_pos rfl]
  · rintro ⟨hother, hadded⟩ d w hterm
    rw [term?_and hf] at hterm
    split at hterm
    next heq =>
      cases hterm
      exact heq ▸ hadded
    next hne => exact hother d w hne hterm

/-- A chain of terms has a term, unless it is empty. -/
theorem isEmpty_of_andAll {terms : List (String × Value)} {m : Row}
    (hm : Filter.all.andAll terms = .eq m) : m.isEmpty = false := by
  rcases List.eq_nil_or_concat' terms with rfl | ⟨terms, t, rfl⟩
  · cases hm
  · rw [andAll_append] at hm
    exact isEmpty_of_and (term?_andAll terms).1 hm

end Chosen

end Filter

/-- Adding a term to a filter of equalities: the rows are those that satisfy it and the terms of the
other columns, so a term of a new column narrows the filter to the rows that satisfy it. A chain of
terms chooses the rows that satisfy the last term of each column; if no column is repeated, these
are all terms, in whatever order. -/
theorem filter_terms {chooses : String → Params → Cells → Prop}
    {equal : String → Stored → Stored → Prop} {s : Schema} {mark : String}
    (h : ReadsEqualities chooses equal s mark) (row : Cells) : (∀ (f : Filter) c v, f.IsEquality →
      ((f.and c v).Chooses chooses s mark row ↔
        (∀ other w, other ≠ c → f.term? other = some w → s.Satisfies equal row other w) ∧
          s.Satisfies equal row c v) ∧
      (f.term? c = none → (∀ m, f = .eq m → m.isEmpty = false) →
        ((f.and c v).Chooses chooses s mark row ↔
          f.Chooses chooses s mark row ∧ s.Satisfies equal row c v))) ∧
    ∀ terms,
      ((Filter.all.andAll terms).Chooses chooses s mark row ↔
        ∀ c v, Filter.IsLast terms c v → s.Satisfies equal row c v) ∧
      ((terms.map (·.1)).Nodup →
        ((Filter.all.andAll terms).Chooses chooses s mark row ↔
          ∀ t ∈ terms, s.Satisfies equal row t.1 t.2)) := by
  constructor
  · intro f c v hf
    refine ⟨Filter.chooses_and_iff h hf c v, fun hnew hsome => ?_⟩
    rw [Filter.chooses_and_iff h hf, Filter.chooses_iff h hf hsome]
    refine and_congr_left fun _ =>
      ⟨fun hother d w hterm => ?_, fun hall d w _ hterm => hall d w hterm⟩
    refine hother d w ?_ hterm
    rintro rfl
    cases hnew.symm.trans hterm
  · intro terms
    obtain ⟨hequality, hterms⟩ := Filter.term?_andAll terms
    have hchain : (Filter.all.andAll terms).Chooses chooses s mark row ↔ _ :=
      Filter.chooses_iff h hequality fun m hm => Filter.isEmpty_of_andAll hm
    simp only [hterms] at hchain
    refine ⟨hchain, fun hnodup => hchain.trans ?_⟩
    simp only [Filter.isLast_iff_mem hnodup, Prod.forall]

open Example

/-- What the clauses that compare numbers choose: there is no clause, or it compares the one
column. -/
def choosesNumber (text : String) (params : Params) (row : Cells) : Prop :=
  text = "" ∨ ∃ v, params.get? "id" = some v ∧ Matches (fun _ a b => a = b) row "id" v

theorem choosesNumber_reads :
    ReadsEqualities choosesNumber (fun _ a b => a = b) numbers.schema "" where
  always _ _ := .inl rfl
  equalities columns params row hne hsub := by
    have hcolumns : columns = ["id"] := (List.sublist_singleton.mp hsub).resolve_left hne
    subst hcolumns
    have htext : (Condition.equalities ["id"]).text "" ≠ "" := by decide
    rw [choosesNumber, or_iff_right htext, List.forall_mem_singleton]
    rfl

/-- The number 5 is chosen by a filter that compares the column with 0 and then with 5, though not
by the filter that compares it with 0 only. -/
theorem filter_terms_of_numbers :
    ReadsEqualities choosesNumber (fun _ a b => a = b) numbers.schema "" ∧
    ((Filter.all.and "id" (.int 5)).Chooses choosesNumber numbers.schema "" (fun _ => .integer 5) ↔
      Filter.all.Chooses choosesNumber numbers.schema "" (fun _ => .integer 5) ∧
        numbers.schema.Satisfies (fun _ a b => a = b) (fun _ => .integer 5) "id" (.int 5)) ∧
    ((Filter.all.and "id" (.int 0)).and "id" (.int 5)).Chooses choosesNumber numbers.schema ""
      (fun _ => .integer 5) ∧
    ¬ (Filter.all.and "id" (.int 0)).Chooses choosesNumber numbers.schema ""
      (fun _ => .integer 5) := by
  obtain ⟨hand, hchain⟩ := filter_terms choosesNumber_reads (fun _ => .integer 5)
  have hfive : numbers.schema.Satisfies (fun _ a b => a = b) (fun _ => .integer 5) "id" (.int 5) :=
    ⟨.integer 5, rfl, nofun, nofun, rfl⟩
  refine ⟨choosesNumber_reads, (hand .all "id" (.int 5) trivial).2 rfl nofun, ?_, ?_⟩
  · refine (hand (Filter.all.and "id" (.int 0)) "id" (.int 5) trivial).1.mpr
      ⟨fun other w hne hterm => ?_, hfive⟩
    rw [Filter.term?_and (f := .all) trivial, if_neg hne] at hterm
    cases hterm
  · intro hzero
    have hall := ((hchain [("id", .int 0)]).2 (by decide)).mp hzero
    obtain ⟨stored, hstored, -, -, hequal⟩ := hall _ List.mem_cons_self
    cases hstored
    cases hequal

/-- Of the numbers -5, 0 and 5 a filter selects 0, and with another term for the same column added
it selects a number that it did not select before. -/
theorem added_term_widens :
    ((numbers.select Engine.Connection.interface (Filter.all.and "id" (.int 0)) .none).collectDirect
        ⟨numbers.newCache, numbersAt⟩).1 = .ok [0] ∧
      ((numbers.select Engine.Connection.interface
        ((Filter.all.and "id" (.int 0)).and "id" (.int 5))
        .none).collectDirect ⟨numbers.newCache, numbersAt⟩).1 = .ok [5] := by
  decide +kernel

end TypedTables
