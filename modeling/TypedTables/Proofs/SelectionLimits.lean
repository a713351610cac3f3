import Mathlib.Algebra.Group.Nat.Defs
import TypedTables.Proofs.ClauseVariables
import TypedTables.Proofs.UpdateSides
import TypedTables.Table.Select

/-!
# The limit of a selection beside its filter

The limit of a selection is bound to a name of its own, behind the values of the filter. A column
may have that name: the comparison and the limit then share a placeholder, and it carries the limit.
-/
namespace TypedTables

variable {σ ρ : Type}

namespace Filter

def whereText (s : Schema) : Filter → String
  | .all => ""
  | .eq row => " WHERE " ++ String.intercalate " AND " ((s.beside "" row).map Beside.text)
  | .raw clause _ => " WHERE " ++ Text.trim clause

/-- The bind variables of the WHERE clause, as they stand in the text. -/
def whereVariables (s : Schema) : Filter → List String
  | .all => []
  | .eq row => (s.beside "" row).map fun b => placeholder b.placeholder
  | .raw clause _ =>
    (Clause.bindVariables (Text.trim clause)).map fun v => String.ofList v.2.chars

/-- A filter has a value for a name: the stored form of what that column is compared with, or the
raw parameter of that name. -/
def Gives (s : Schema) : Filter → String → Stored → Prop
  | .all, _, _ => False
  | .eq row, name, stored => ∃ v, row.get? name = some v ∧ s.stored name v = .ok stored
  | .raw _ given, name, stored => ∃ v, given.get? name = some v ∧ v.toStored = stored

/-- A bind variable is bound to the value that the filter has for its name. -/
def Carries (s : Schema) (f : Filter) (params : Params) (x : String) : Prop :=
  ∃ name stored, x = placeholder name ∧ f.Gives s name stored ∧ params.get? name = some stored

structure Apart (s : Schema) (f : Filter) (limited : Bool) (params : Params) : Prop where
  carried : ∀ x ∈ f.whereVariables s, f.Carries s params x
  disjoint : limited = true → placeholder limitPlaceholder ∉ f.whereVariables s

/-- No compared column has the name of the limit that is set, and a clause has no variables but the
declared ones. -/
def Unshadowed (limited : Bool) : Filter → Prop
  | .all => True
  | .eq row => limited = true → limitPlaceholder ∉ row.names
  | .raw clause given =>
    ∀ v ∈ Clause.bindVariables (Text.trim clause), Clause.Allowed given.names [] v.2

end Filter

def selectionText (t : Table ρ) (columns : List String) (f : Filter) (o : SelectOptions) : String :=
  "SELECT " ++ keywordIf o.distinct "DISTINCT" ++ commas columns ++ " FROM " ++ t.name.text ++
    f.whereText t.schema ++
    (if o.orderBy.isEmpty then "" else " ORDER BY " ++ commas (o.orderBy.map sortKeyText)) ++
    (if o.limit.isSome then " LIMIT " ++ placeholder limitPlaceholder else "")

/-- What the text and the parameters of a selection say about its filter and its limit: the limit is
bound to itself or to the greatest integer, a value of the filter is bound unless the limit takes
its name, and the two are apart exactly if nothing of the filter is named like the limit. -/
structure SelectionOf (t : Table ρ) (columns : List String) (f : Filter) (o : SelectOptions)
    (text : String) (params : Params) : Prop where
  text_eq : text = selectionText t columns f o
  limit_bound : ∀ n, o.limit = some n →
    params.get? limitPlaceholder = some (.integer (Int64.ofNat (min n.toNat (2 ^ 63 - 1))))
  values_bound : ∀ name stored, f.Gives t.schema name stored →
    (name = limitPlaceholder → o.limit = none) → params.get? name = some stored
  columns_given : ∀ row, f = .eq row → ∀ name ∈ row.names,
    name ∈ t.schema.names ∧ ∃ stored, f.Gives t.schema name stored
  clause_readings : ∀ clause given, f = .raw clause given →
    Clause.Readings given.names [] (Text.trim clause) ∧ limitPlaceholder ∉ given.names
  apart_iff : f.Apart t.schema o.limit.isSome params ↔ f.Unshadowed o.limit.isSome

section Compiled

variable {s : Schema} {f : Filter} {predicate : Predicate} {q : Params}

/-- What a compiled filter has for a name is bound to it. -/
theorem get?_of_gives (h : f.compile s "" = .ok (predicate, q)) {name : String} {stored : Stored}
    (hg : f.Gives s name stored) : q.get? name = some stored := by
  cases f with
  | all => exact hg.elim
  | eq row =>
    obtain ⟨v, hv, hs⟩ := hg
    simp only [Filter.compile] at h
    split at h
    · simp at h
    obtain ⟨columns, -, h⟩ := except_bind_eq_ok.mp h
    obtain ⟨q', hq, heq⟩ := except_bind_eq_ok.mp h
    cases heq
    obtain ⟨stored', hs', hget⟩ := (Schema.encodeRow_spec hq).2 name v hv
    rw [String.empty_append] at hget
    rw [hget, Except.ok.inj (hs'.symm.trans hs)]
  | raw clause given =>
    obtain ⟨v, hv, rfl⟩ := hg
    cases h
    exact Params.get?_ofRow hv

/-- The condition of a compiled filter, as text. -/
theorem condition_text (h : f.compile s "" = .ok (predicate, q)) {condition : Condition}
    (hc : s.condition [] predicate = .ok condition) : condition.text "" = f.whereText s := by
  cases f with
  | all =>
    cases h
    cases hc
    rfl
  | eq row =>
    simp only [Filter.compile] at h
    split at h
    · simp at h
    obtain ⟨columns, hcolumns, h⟩ := except_bind_eq_ok.mp h
    obtain ⟨q', -, heq⟩ := except_bind_eq_ok.mp h
    cases heq
    obtain ⟨columns', hcolumns', hc⟩ := except_bind_eq_ok.mp hc
    rw [Schema.ordered_ordered hcolumns, Except.ok.injEq] at hcolumns'
    subst hcolumns'
    split at hc
    · simp at hc
    cases hc
    obtain ⟨-, rfl⟩ := Schema.ordered_eq_ok.mp hcolumns
    rw [Condition.text, Filter.whereText, beside_text]
  | raw clause given =>
    cases h
    obtain ⟨rfl, -⟩ := condition_raw hc
    rfl

/-- Each column that is compared is declared, and the filter has a value for it. -/
theorem columns_given (h : f.compile s "" = .ok (predicate, q)) {row : Row} (hf : f = .eq row)
    {name : String} (hn : name ∈ row.names) : name ∈ s.names ∧ ∃ stored, f.Gives s name stored := by
  subst hf
  simp only [Filter.compile] at h
  split at h
  · simp at h
  obtain ⟨columns, hcolumns, h⟩ := except_bind_eq_ok.mp h
  obtain ⟨q', hq, -⟩ := except_bind_eq_ok.mp h
  obtain ⟨hdeclared, -⟩ := Schema.ordered_eq_ok.mp hcolumns
  obtain ⟨v, hv⟩ := row.mem_names_iff.mp hn
  obtain ⟨stored, hs, -⟩ := (Schema.encodeRow_spec hq).2 name v hv
  exact ⟨hdeclared name hn, stored, v, hv, hs⟩

/-- A clause whose condition was accepted has passed its check. -/
theorem clause_passed (h : f.compile s "" = .ok (predicate, q)) {condition : Condition}
    (hc : s.condition [] predicate = .ok condition) {clause : String} {given : Row}
    (hf : f = .raw clause given) :
    ∃ found, Clause.Passed given.names [] (Text.trim clause) found := by
  subst hf
  cases h
  exact (condition_raw hc).2

end Compiled

/-- The limit has a reserved name, which no raw parameter has. -/
theorem ne_limit_of_passed {declared set found : List String} {clause : String}
    (hp : Clause.Passed declared set clause found) {name : String} (hn : name ∈ declared) :
    name ≠ limitPlaceholder := by
  rintro rfl
  have hfree := (hp.declared_ok _ hn).2
  have hreserved : Clause.isReserved limitPlaceholder = true := by decide
  rw [hreserved] at hfree
  cases hfree

section Apart

variable {s : Schema} {limited : Bool} {params : Params}

theorem apart_eq_iff {row : Row}
    (hvalues : ∀ name stored, (Filter.eq row).Gives s name stored →
      (name = limitPlaceholder → limited = false) → params.get? name = some stored)
    (hgiven : ∀ name ∈ row.names, name ∈ s.names ∧ ∃ stored, (Filter.eq row).Gives s name stored) :
    (Filter.eq row).Apart s limited params ↔ (Filter.eq row).Unshadowed limited := by
  have hmem : ∀ x, x ∈ (Filter.eq row).whereVariables s ↔ ∃ name ∈ row.names,
      x = placeholder name := by
    intro x
    simp only [Filter.whereVariables, List.mem_map, mem_beside fun c hc => (hgiven c hc).1]
    constructor
    · rintro ⟨b, ⟨hb, hplace⟩, rfl⟩
      exact ⟨b.column, hb, by rw [hplace, String.empty_append]⟩
    · rintro ⟨name, hn, rfl⟩
      exact ⟨⟨name, name⟩, ⟨hn, (String.empty_append).symm⟩, rfl⟩
  constructor
  · intro h hl hn
    exact h.disjoint hl ((hmem _).mpr ⟨limitPlaceholder, hn, rfl⟩)
  · intro h
    constructor
    · intro x hx
      obtain ⟨name, hn, rfl⟩ := (hmem x).mp hx
      obtain ⟨-, stored, hg⟩ := hgiven name hn
      refine ⟨name, stored, rfl, hg, hvalues name stored hg ?_⟩
      -- the value of `__limit` is the limit only if there is one
      rintro rfl
      by_contra hl
      exact h (by simpa using hl) hn
    · intro hl hx
      obtain ⟨name, hn, heq⟩ := (hmem _).mp hx
      rw [← (String.append_right_inj ":").mp heq] at hn
      exact h hl hn

theorem apart_raw_iff {clause : String} {given : Row} {found : List String}
    (hvalues : ∀ name stored, (Filter.raw clause given).Gives s name stored →
      (name = limitPlaceholder → limited = false) → params.get? name = some stored)
    (hp : Clause.Passed given.names [] (Text.trim clause) found) :
    (Filter.raw clause given).Apart s limited params ↔
    (Filter.raw clause given).Unshadowed limited := by
  constructor
  · intro h v hv
    obtain ⟨name, stored, hx, ⟨w, hw, -⟩, -⟩ := h.carried _ (List.mem_map_of_mem hv)
    have hn : name ∈ given.names := given.mem_names_iff.mpr ⟨w, hw⟩
    refine ⟨name, hn, ?_, by simp, (hp.declared_ok name hn).2⟩
    have hchars := congrArg String.toList hx
    simpa [placeholder] using hchars
  · intro h
    have hall : ∀ x ∈ (Filter.raw clause given).whereVariables s, ∃ name ∈ given.names,
        x = placeholder name := by
      intro x hx
      obtain ⟨v, hv, rfl⟩ := List.mem_map.mp hx
      obtain ⟨name, hn, hchars, -⟩ := h v hv
      refine ⟨name, hn, ?_⟩
      rw [← String.toList_inj, hchars]
      simp [placeholder]
    constructor
    · intro x hx
      obtain ⟨name, hn, rfl⟩ := hall x hx
      obtain ⟨w, hw⟩ := given.mem_names_iff.mp hn
      have hg : (Filter.raw clause given).Gives s name w.toStored := ⟨w, hw, rfl⟩
      exact ⟨name, _, rfl, hg, hvalues name _ hg fun heq => absurd heq (ne_limit_of_passed hp hn)⟩
    · intro _ hx
      obtain ⟨name, hn, heq⟩ := hall _ hx
      exact ne_limit_of_passed hp hn ((String.append_right_inj ":").mp heq).symm

end Apart

/-- The text of a selection of columns, and the condition in it. -/
theorem selection_text {s : Schema} {table : TableName} {choice : ColumnChoice}
    {predicate : Predicate} {o : SelectOptions} {text : String}
    (h : s.statementText table
      (.select ⟨.columns choice, o.distinct, predicate, o.orderBy, o.limit.isSome⟩) = .ok text) :
    ∃ columns condition, s.chosen choice = .ok columns ∧ s.condition [] predicate = .ok condition ∧
      text = (Statement.select table (.columns columns) o.distinct condition o.orderBy
        o.limit.isSome).text := by
  obtain ⟨statement, hst, rfl⟩ := except_map_eq_ok.mp h
  simp only [Statement.ofShape, except_bind_eq_ok] at hst
  obtain ⟨selected, hselected, condition, hcondition, ⟨⟩, -, hst⟩ := hst
  simp only [Schema.selected, except_bind_eq_ok] at hselected
  obtain ⟨columns, hcolumns, hselected⟩ := hselected
  split at hselected
  · simp at hselected
  cases hselected
  cases hst
  exact ⟨columns, condition, hcolumns, hcondition, rfl⟩

/-- The parameters of a filter, with the limit if one is set. -/
def SelectOptions.limited (o : SelectOptions) (q : Params) : Params :=
  match o.limit with
  | some n => q.push limitPlaceholder (storedLimit n)
  | .none => q

section Limited

variable {o : SelectOptions} {q : Params}

theorem get?_limited {n : UInt64} (h : o.limit = some n) :
    (o.limited q).get? limitPlaceholder = some (SelectOptions.storedLimit n) := by
  simp only [SelectOptions.limited, h]
  exact Params.get?_push_self _ _ _

/-- The limit leaves the other names as they were. -/
theorem get?_limited_of_free {name : String} (h : name = limitPlaceholder → o.limit = none) :
    (o.limited q).get? name = q.get? name := by
  cases hl : o.limit with
  | none => simp only [SelectOptions.limited, hl]
  | some n =>
    have hne : name ≠ limitPlaceholder := fun heq => by simpa [hl] using h heq
    simp only [SelectOptions.limited, hl]
    exact Params.get?_push_of_ne _ hne _

end Limited

namespace Table

variable {t : Table ρ} {earlier : List Shape} {f : Filter} {o : SelectOptions}

theorem selection_eq_ok {projection : Projection} {predicate : Predicate} {q params : Params}
    {c : StatementCache} {text : String} :
    (selection projection predicate o q c).1 = .ok (text, params) ↔
      (statement (.select ⟨projection, o.distinct, predicate, o.orderBy, o.limit.isSome⟩) c).1 =
        .ok text ∧
        params = o.limited q := by
  rw [selection, building_bind_eq_ok]
  cases hl : o.limit <;> simp [SelectOptions.limited, hl, eq_comm]

/-- What an accepted selection of columns hands to the engine. -/
theorem filtered_eq_ok {choice : ColumnChoice} {text : String} {params : Params}
    (h : (t.filtered (.columns choice) f o (t.newCache.requested earlier)).1 = .ok (text, params)) :
    ∃ columns, t.schema.chosen choice = .ok columns ∧ SelectionOf t columns f o text params := by
  obtain ⟨⟨predicate, q⟩, hf, h⟩ := building_bind_eq_ok.mp h
  change f.compile t.schema "" = .ok (predicate, q) at hf
  obtain ⟨ht, rfl⟩ := selection_eq_ok.mp h
  change (statement _ (t.newCache.requested earlier)).1 = .ok text at ht
  rw [newCache, statement_requested] at ht
  obtain ⟨columns, condition, hcolumns, hcondition, htext⟩ := selection_text ht
  have hvalues : ∀ name stored, f.Gives t.schema name stored →
      (name = limitPlaceholder → o.limit = none) → (o.limited q).get? name = some stored := by
    intro name stored hg hfree
    rw [get?_limited_of_free hfree, get?_of_gives hf hg]
  have hgiven : ∀ row, f = .eq row → ∀ name ∈ row.names,
      name ∈ t.schema.names ∧ ∃ stored, f.Gives t.schema name stored :=
    fun row hrow name hn => columns_given hf hrow hn
  refine ⟨columns, hcolumns, ?_, fun n hn => get?_limited hn, hvalues, hgiven, ?_, ?_⟩
  · rw [htext, selectionText, ← condition_text hf hcondition]
    rfl
  · intro clause given hclause
    obtain ⟨found, hp⟩ := clause_passed hf hcondition hclause
    exact ⟨Clause.readings_of_passed hp, fun hmem => ne_limit_of_passed hp hmem rfl⟩
  · have hvalues' : ∀ name stored, f.Gives t.schema name stored →
        (name = limitPlaceholder → o.limit.isSome = false) →
        (o.limited q).get? name = some stored :=
      fun name stored hg h => hvalues name stored hg fun heq => by simpa using h heq
    cases f with
    | all => exact ⟨fun _ => trivial,
        fun _ => ⟨by simp [Filter.whereVariables], fun _ => by simp [Filter.whereVariables]⟩⟩
    | eq row => exact apart_eq_iff hvalues' fun name hn => hgiven row rfl name hn
    | raw clause given =>
      obtain ⟨found, hp⟩ := clause_passed hf hcondition rfl
      exact apart_raw_iff hvalues' hp

end Table

/-- An accepted selection of records, of the first record or of some columns answers what its text
asks for, whose limit and compared values are bound side by side unless a compared column is named
like the limit. -/
theorem selection_limit (t : Table ρ) (E : Engine.Interface σ) (earlier : List Shape) (f : Filter)
    (o : SelectOptions) :
    (∀ job, (t.select E f o (t.newCache.requested earlier)).1 = .ok job →
      ∃ text params, job = E.rows text params (t.decodeRecords 0) ∧
        SelectionOf t t.schema.names f o text params) ∧
    (∀ job, (t.selectOne E f o (t.newCache.requested earlier)).1 = .ok job →
      ∃ text params, job = Table.firstOf (E.rows text params (t.decodeRecords 0)) ∧
        SelectionOf t t.schema.names f { o with limit := some 1 } text params) ∧
    ∀ names job, (t.selectRows E names f o (t.newCache.requested earlier)).1 = .ok job →
      ∃ text params columns, t.schema.ordered names = .ok columns ∧
        job = E.rows text params t.decodeRows ∧ SelectionOf t columns f o text params := by
  refine ⟨?_, ?_, ?_⟩
  · intro job h
    obtain ⟨⟨text, params⟩, hfiltered, hjob⟩ := Table.building_bind_eq_ok.mp h
    obtain ⟨columns, hcolumns, hs⟩ := Table.filtered_eq_ok hfiltered
    cases hcolumns
    cases hjob
    exact ⟨text, params, rfl, hs⟩
  · intro job h
    obtain ⟨⟨text, params⟩, hfiltered, hjob⟩ := Table.building_bind_eq_ok.mp h
    obtain ⟨columns, hcolumns, hs⟩ := Table.filtered_eq_ok hfiltered
    cases hcolumns
    cases hjob
    exact ⟨text, params, rfl, hs⟩
  · intro names job h
    obtain ⟨columns, hordered, h⟩ := Table.building_bind_eq_ok.mp h
    obtain ⟨⟨text, params⟩, hfiltered, hjob⟩ := Table.building_bind_eq_ok.mp h
    rw [Table.checked_apply] at hordered hfiltered
    obtain ⟨columns', hcolumns, hs⟩ := Table.filtered_eq_ok hfiltered
    have hsame : t.schema.ordered columns = .ok columns' := hcolumns
    rw [Schema.ordered_ordered hordered] at hsame
    cases hsame
    cases hjob
    exact ⟨text, params, columns, hordered, rfl, hs⟩

open Example

/-- The column `a` is compared, with a limit: as records, as one record and as rows. -/
theorem selection_limit_of_one_column :
    (∃ text params,
      SelectionOf limiting ["a", "__limit"] (.eq (oneInteger "a" 1)) ⟨[], some 3, false⟩
      text params) ∧
    (∃ text params,
      SelectionOf limiting ["a", "__limit"] (.eq (oneInteger "a" 1)) ⟨[], some 1, false⟩
      text params) ∧
    ∃ text params, SelectionOf limiting ["__limit"] (.eq (oneInteger "a" 1)) ⟨[], some 3, false⟩
      text params := by
  have h := selection_limit limiting Engine.Connection.interface [] (.eq (oneInteger "a" 1))
    ⟨[], some 3, false⟩
  refine ⟨?_, ?_, ?_⟩
  · obtain ⟨text, params, -, hs⟩ := h.1 _ rfl
    exact ⟨text, params, hs⟩
  · obtain ⟨text, params, -, hs⟩ := h.2.1 _ rfl
    exact ⟨text, params, hs⟩
  · obtain ⟨text, params, columns, hcolumns, -, hs⟩ := h.2.2 ["__limit"] _ rfl
    cases hcolumns
    exact ⟨text, params, hs⟩

/-- Comparing `__limit` with 5 in a selection of at most 3 records is accepted, and compares it with
3. -/
theorem limit_compared :
    limiting.type.schema = .ok limiting.schema ∧
    ∃ params, (∀ (σ : Type) (E : Engine.Interface σ),
      (limiting.select E (.eq (oneInteger "__limit" 5)) ⟨[], some 3, false⟩ limiting.newCache).1 =
        .ok (E.rows "SELECT a, __limit FROM t WHERE __limit=:__limit LIMIT :__limit" params
          (limiting.decodeRecords 0))) ∧
      params.entries = [("__limit", .integer 3)] ∧
      ¬ (Filter.eq (oneInteger "__limit" 5)).Apart limiting.schema true params := by
  refine ⟨rfl, _, fun σ E => rfl, rfl, ?_⟩
  intro h
  exact h.disjoint rfl (by decide)

end TypedTables
