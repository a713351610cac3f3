import TypedTables.Proofs.AcceptedClauses
import TypedTables.Proofs.BoundNames
import TypedTables.Proofs.FilterTerms
import TypedTables.Proofs.UpdatePairs

/-!
# The condition of a filter

A filter has one condition and one list of values, whatever is done to the rows that it chooses:
they are selected, counted or deleted under the same clause. An update marks the placeholders of the
columns in it, to keep them apart from those of the columns that it sets. A clause of the caller
stays as it is; so a variable in it that its check has overlooked may be the placeholder of a column
that is set.
-/
namespace TypedTables

open Engine Insertion

/-- The name that a value of a condition is bound to in an update. -/
def Condition.nameInUpdate (name : String) : Condition → String
  | .equalities _ => whereMark ++ name
  | _ => name

/-- The clause of the caller has the placeholder of a column for a variable. -/
def Condition.Reads (condition : Condition) (column : String) : Prop :=
  ∃ clause, condition = .clause clause ∧ placeholder column ∈ Clause.variableTexts clause

/-- The value that a variable has in a statement: NULL if nothing is bound to it. -/
def Params.valueOf (p : Params) (x : String) : Stored :=
  match x.toList with
  | ':' :: name => (p.get? (String.ofList name)).getD .null
  | _ => .null

/-- The condition and the values of a filter, checked for a statement that sets nothing. -/
def Filter.checked (s : Schema) (f : Filter) : Except Error (Condition × Params) := do
  let (predicate, params) ← f.compile s ""
  let condition ← s.condition [] predicate
  .ok (condition, params)

/-- A job asks for one statement, with a condition under a mark and with these parameters. -/
def Job.Conditioned {σ : Type} (E : Interface σ) (mark : String)
    (condition : Condition) (params : Params) (job : Job (σ × List Request) Unit) : Prop :=
  ∃ statement : Statement, statement.condition? = some condition ∧
    (∃ front back, statement.text = front ++ condition.text mark ++ back) ∧
    Job.Hands E statement.text (params = ·) job

/-- The operations that select, count or delete what a filter chooses, and all of it. -/
inductive Operation.Takes {ρ : Type} (f : Filter) : Operation ρ → Prop where
  | select {o : SelectOptions} (wants : Demand ρ) (h : o.limit = none) : Takes f (.select f o wants)
  | selectRows (columns : List String) {o : SelectOptions} (wants : Demand Row)
      (h : o.limit = none) :
      Takes f (.selectRows columns f o wants)
  | count : Takes f (.count f)
  | exists : Takes f (.exists f)
  | delete : Takes f (.delete f)
  | deleteReturning (wants : Demand ρ) : Takes f (.deleteReturning f wants)

/-- How an engine reads the conditions of a table. Equalities hold if each column has the value that
its placeholder is bound to; what a clause of the caller says of a row depends on the values of the
variables that are read in it. -/
structure ReadsConditions (chooses : String → Params → Cells → Prop)
    (equal : String → Stored → Stored → Prop) (s : Schema) : Prop where
  plain : ReadsEqualities chooses equal s ""
  marked : ReadsEqualities chooses equal s whereMark
  clause : ∀ (clause mark : String) (p q : Params) (row : Cells),
    (∀ x ∈ Clause.variableTexts clause, p.valueOf x = q.valueOf x) →
      (chooses ((Condition.clause clause).text mark) p row ↔
        chooses ((Condition.clause clause).text mark) q row)

/-- A condition in an update that sets columns, beside the same condition in a statement that sets
nothing. The values are the same under the names of the update, and the same rows are chosen, unless
the condition reads a column that is set. It does so only behind a comment that leaves a quote open,
and then the update has the new value of the column where another statement has NULL. -/
structure AgreesInUpdate (s : Schema) (set : Row) (condition : Condition)
    (params bound : Params) : Prop where
  values : ∀ name ∈ params.names, bound.get? (condition.nameInUpdate name) = params.get? name
  chosen : ∀ {chooses equal}, ReadsConditions chooses equal s →
    (∀ column ∈ set.names, ¬ condition.Reads column) →
    ∀ row, chooses (condition.text "") params row ↔ chooses (condition.text whereMark) bound row
  hidden : ∀ column ∈ set.names, condition.Reads column →
    (∃ clause, condition = .clause clause ∧
      ∃ p ∈ pieces clause.toList, Clause.isComment p = true ∧
      Clause.openAfter none p.chars ≠ none) ∧
    params.valueOf (placeholder column) = .null ∧
    ∃ v stored, set.get? column = some v ∧ s.stored column v = .ok stored ∧
      bound.valueOf (placeholder column) = stored

/-! ### Values -/

theorem Params.valueOf_placeholder (p : Params) (name : String) :
    p.valueOf (placeholder name) = (p.get? name).getD .null := by
  have hchars : (placeholder name).toList = ':' :: name.toList := by simp [placeholder]
  rw [valueOf, hchars]
  exact congrArg (fun n => (p.get? n).getD .null) String.ofList_toList

/-- Two lists of parameters have one value for a variable if they have one for its name. -/
theorem Params.valueOf_congr {p q : Params} {x : String}
    (h : ∀ name, x = placeholder name → (p.get? name).getD .null = (q.get? name).getD .null) :
    p.valueOf x = q.valueOf x := by
  rw [valueOf, valueOf]
  split
  next name hname =>
    refine h _ ?_
    rw [← String.toList_inj, hname]
    simp [placeholder]
  next => rfl

section Compiled

variable {s : Schema} {f : Filter} {predicate : Predicate} {set : List String}
    {condition : Condition}
  {compared params : Params}

theorem Filter.checked_eq_ok : f.checked s = .ok (condition, params) ↔
    ∃ predicate, f.compile s "" = .ok (predicate, params) ∧
    s.condition [] predicate = .ok condition := by
  rw [checked, except_bind_eq_ok]
  constructor
  · rintro ⟨⟨predicate, q⟩, hf, h⟩
    obtain ⟨c, hc, h⟩ := except_bind_eq_ok.mp h
    cases h
    exact ⟨predicate, hf, hc⟩
  · rintro ⟨predicate, hf, hc⟩
    exact ⟨(predicate, params), hf, except_bind_eq_ok.mpr ⟨condition, hc, rfl⟩⟩

/-- A condition that is accepted beside columns that are set is accepted by itself. -/
theorem condition_of_set (h : s.condition set predicate = .ok condition) :
    s.condition [] predicate = .ok condition := by
  cases predicate with
  | raw clause declared =>
    obtain ⟨rfl, found, hpassed⟩ := condition_raw h
    have hfree : Clause.Passed declared [] (Text.trim clause) found :=
      ⟨hpassed.scanned, hpassed.declared_ok,
        fun name hname => ⟨(hpassed.found_ok name hname).1, List.not_mem_nil⟩,
          hpassed.declared_found⟩
    simp only [Schema.condition] at h ⊢
    split at h
    · cases h
    next hclause =>
      rw [if_neg hclause, Clause.check_of_passed hfree]
      rfl
  | _ => exact h

/-- A filter that is compiled under the mark is compiled without it, to the same predicate and the
same values. -/
theorem compile_of_marked (hf : f.compile s whereMark = .ok (predicate, compared))
    (h : s.condition set predicate = .ok condition) :
    ∃ params, f.compile s "" = .ok (predicate, params) ∧
      (∀ name ∈ params.names, compared.get? (condition.nameInUpdate name) = params.get? name) ∧
      ∀ clause, condition = .clause clause → compared = params := by
  cases f with
  | all =>
    cases hf
    exact ⟨.empty, rfl, fun name hname => by simp at hname, fun _ _ => rfl⟩
  | raw clause given =>
    cases hf
    obtain ⟨rfl, -⟩ := condition_raw h
    exact ⟨.ofRow given, rfl, fun name _ => rfl, fun _ _ => rfl⟩
  | eq row =>
    rw [Filter.compile] at hf
    split at hf
    · cases hf
    next hrow =>
      obtain ⟨columns, hcolumns, hf⟩ := except_bind_eq_ok.mp hf
      obtain ⟨q, hq, hf⟩ := except_bind_eq_ok.mp hf
      cases hf
      obtain ⟨p, hp⟩ := (Schema.encodable_iff "").mp ((Schema.encodable_iff whereMark).mpr ⟨_, hq⟩)
      obtain ⟨columns', -, h⟩ := except_bind_eq_ok.mp h
      split at h
      · cases h
      cases h
      refine ⟨p, ?_, fun name hname => ?_, fun clause hclause => by cases hclause⟩
      · rw [Filter.compile, if_neg hrow]
        exact except_bind_eq_ok.mpr ⟨columns, hcolumns, except_bind_eq_ok.mpr ⟨p, hp, rfl⟩⟩
      · rw [names_of_encodeRow hp] at hname
        obtain ⟨v, hv⟩ := row.mem_names_iff.mp hname
        obtain ⟨stored, hstored, hplain⟩ := (Schema.encodeRow_spec hp).2 name v hv
        obtain ⟨stored', hstored', hmarked⟩ := (Schema.encodeRow_spec hq).2 name v hv
        cases hstored.symm.trans hstored'
        rw [String.empty_append] at hplain
        exact hmarked.trans hplain.symm

end Compiled

/-! ### The variables of a clause -/

namespace Clause

/-- What is read in a clause is read behind some quote, or outside of quotes. -/
theorem exists_bindVariable {clause x : String} (h : x ∈ variableTexts clause) :
    ∃ v ∈ bindVariables clause, String.ofList v.2.chars = x := by
  obtain ⟨p, hp, rfl⟩ := List.mem_map.mp h
  obtain ⟨hmem, hkind⟩ := List.mem_filter.mp hp
  rw [← map_snd_withOpen none (pieces clause.toList)] at hmem
  obtain ⟨v, hv, rfl⟩ := List.mem_map.mp hmem
  exact ⟨v, List.mem_filter.mpr ⟨hv, hkind⟩, rfl⟩

/-- The placeholder of a column that is set is read only behind a comment that leaves a quote
open. -/
theorem exists_comment_of_set {declared set found : List String} {clause name : String}
    (hp : Passed declared set clause found)
    (hname : Text.isIdentifier name = true) (hset : name ∈ set)
    (h : placeholder name ∈ variableTexts clause) :
    ∃ p ∈ pieces clause.toList, isComment p = true ∧ openAfter none p.chars ≠ none := by
  by_contra hnone
  have hclosed : ∀ p ∈ pieces clause.toList, isComment p = true →
      openAfter none p.chars = none := by
    intro p hpiece hcomment
    by_contra hopen
    exact hnone ⟨p, hpiece, hcomment, hopen⟩
  obtain ⟨v, hv, htext⟩ := exists_bindVariable h
  have hchars : v.2.chars = ':' :: name.toList := by
    rw [← String.toList_inj, String.toList_ofList] at htext
    rw [htext]
    simp [placeholder]
  have hreadings := readings_of_passed hp
  have hplain : Plain v.2 := by
    rw [Plain, hchars]
    exact ⟨by simp, fun c hc => List.all_eq_true.mp (Text.all_isNameChar hname) c hc⟩
  obtain ⟨other, -, hother, hfree, -⟩ :=
    (hreadings.seen_allowed_iff v hv (hreadings.all_seen hclosed v hv)).mpr hplain
  rw [hchars] at hother
  exact hfree (String.toList_inj.mp (List.cons.inj hother).2 ▸ hset)

end Clause

/-! ### An update -/

section Update

variable {s : Schema} {f : Filter} {set : Row} {columns : List String} {predicate : Predicate}
  {condition : Condition} {compared p : Params}

/-- The accepted condition of a list of columns compares these, in the order of the table, and at
least one. -/
theorem equalities_of_columns {names set : List String}
    (h : s.condition set (.columns names) = .ok condition) :
    ∃ columns, condition = .equalities columns ∧ columns ≠ [] ∧ columns.Sublist s.names ∧
      ∀ name, name ∈ columns ↔ name ∈ names := by
  obtain ⟨columns, hcolumns, h⟩ := except_bind_eq_ok.mp h
  split at h
  · cases h
  next hne =>
    cases h
    obtain ⟨-, rfl⟩ := Schema.ordered_eq_ok.mp hcolumns
    exact ⟨_, rfl, fun hnil => hne (List.isEmpty_iff.mpr hnil), List.filter_sublist,
      fun name => Schema.mem_ordered_iff hcolumns⟩

/-- The clause of an accepted condition has passed its check, with the names that are bound for
it. -/
theorem passed_of_clause {clause : String}
    (h : s.condition columns predicate = .ok (.clause clause)) :
    ∃ found, Clause.Passed (predicate.bound "") columns clause found := by
  cases predicate with
  | all => cases h
  | columns names =>
    obtain ⟨compared, hcompared, -⟩ := equalities_of_columns h
    cases hcompared
  | raw text declared =>
    obtain ⟨heq, hpassed⟩ := condition_raw h
    cases heq
    exact hpassed

/-- Rows are chosen by the values of a condition, under whatever names they are bound. -/
theorem chosen_congr {chooses : String → Params → Cells → Prop}
    {equal : String → Stored → Stored → Prop} (h : ReadsConditions chooses equal s)
    {params bound : Params} (hc : s.condition columns predicate = .ok condition)
    (hnames : ∀ name, name ∈ params.names ↔ name ∈ predicate.bound "")
    (hvalues : ∀ name ∈ params.names, bound.get? (condition.nameInUpdate name) = params.get? name)
    (hvariables : ∀ clause, condition = .clause clause →
      ∀ x ∈ Clause.variableTexts clause, params.valueOf x = bound.valueOf x) (row : Cells) :
    chooses (condition.text "") params row ↔ chooses (condition.text whereMark) bound row := by
  cases predicate with
  | all =>
    cases hc
    exact iff_of_true (h.plain.always _ _) (h.marked.always _ _)
  | columns names =>
    obtain ⟨compared, rfl, hne, hsublist, hmem⟩ := equalities_of_columns hc
    rw [h.plain.equalities _ _ _ hne hsublist, h.marked.equalities _ _ _ hne hsublist]
    refine forall₂_congr fun column hcolumn => ?_
    have hbound : column ∈ params.names := by
      rw [hnames]
      exact List.mem_map.mpr ⟨column, (hmem column).mp hcolumn, String.empty_append⟩
    have hsame : bound.get? (whereMark ++ column) = params.get? column := hvalues column hbound
    rw [hsame, String.empty_append]
  | raw clause declared =>
    obtain ⟨rfl, -⟩ := condition_raw hc
    exact h.clause _ "" _ _ row (hvariables _ rfl)

/-- The condition of a filter in an accepted update is its condition elsewhere, and the two
agree. -/
theorem agrees_of_update (hcolumns : s.orderedNames set = .ok columns)
    (hf : f.compile s whereMark = .ok (predicate, compared))
    (hc : s.condition columns predicate = .ok condition) (hp : s.encodeRow set "" = .ok p) :
    ∃ params, f.checked s = .ok (condition, params) ∧
      AgreesInUpdate s set condition params (p.extend compared) := by
  obtain ⟨params, hplain, hvalues, hclause⟩ := compile_of_marked hf hc
  refine ⟨params, Filter.checked_eq_ok.mpr ⟨predicate, hplain, condition_of_set hc⟩, ?_⟩
  obtain ⟨-, hnames⟩ := names_of_compile hplain
  have hmerged : ∀ name, (p.extend compared).get? name = (compared.get? name).or (p.get? name) := by
    refine Params.get?_extend p compared fun name hname => ?_
    exact bareName_of_condition hc name (((names_of_compile hf).2 name).mp hname)
  have hbound : ∀ name ∈ params.names,
      (p.extend compared).get? (condition.nameInUpdate name) = params.get? name := by
    intro name hname
    rw [hmerged, hvalues name hname]
    exact Option.or_of_isSome (Option.isSome_iff_ne_none.mpr (params.mem_names_iff.mp hname))
  -- In a clause, a name that the filter does not bind has the value that is set, if there is one.
  have hother : ∀ clause, condition = .clause clause → ∀ name, name ∉ params.names →
      (p.extend compared).get? name = p.get? name := by
    intro clause hcond name hname
    rw [hmerged, hclause clause hcond, params.get?_eq_none_iff.mpr hname, Option.none_or]
  refine ⟨hbound, fun {chooses equal} h hfree row => ?_, ?_⟩
  · refine chosen_congr h hc hnames hbound (fun clause hcond x hx => Params.valueOf_congr ?_) row
    rintro name rfl
    by_cases hname : name ∈ params.names
    · have hsame := hbound name hname
      rw [hcond] at hsame
      rw [← hsame]
      rfl
    · have hset : name ∉ p.names := by
        rw [names_of_encodeRow hp]
        exact fun hset => hfree name hset ⟨clause, hcond, hx⟩
      rw [hother clause hcond name hname, params.get?_eq_none_iff.mpr hname,
        p.get?_eq_none_iff.mpr hset]
  · rintro column hset ⟨clause, rfl, hread⟩
    obtain ⟨found, hpassed⟩ := passed_of_clause hc
    have hcolumn : column ∈ columns := (Schema.mem_ordered_iff hcolumns).mpr hset
    have hdeclared : column ∈ s.names := (Schema.ordered_eq_ok.mp hcolumns).1 column hset
    have hfree : column ∉ params.names := by
      rw [hnames]
      exact fun hmem => (hpassed.found_ok column (hpassed.declared_found column hmem)).2 hcolumn
    obtain ⟨v, hv⟩ := set.mem_names_iff.mp hset
    obtain ⟨stored, hstored, hget⟩ := (Schema.encodeRow_spec hp).2 column v hv
    rw [String.empty_append] at hget
    refine ⟨⟨clause, rfl,
      Clause.exists_comment_of_set hpassed (Schema.isIdentifier_of_mem hdeclared) hcolumn hread⟩,
      ?_, v, stored, hv, hstored, ?_⟩
    · rw [Params.valueOf_placeholder, params.get?_eq_none_iff.mpr hfree]
      rfl
    · rw [Params.valueOf_placeholder, hother clause rfl column hfree, hget]
      rfl

end Update

/-! ### Operations -/

section Statements

variable {s : Schema} {table : TableName} {statement : Statement} {predicate : Predicate}

/-- The condition of a selection is that of its predicate. -/
theorem condition_of_select {shape : SelectShape}
    (h : Statement.ofShape s table (.select shape) = .ok statement) :
    ∃ condition, s.condition [] shape.predicate = .ok condition ∧
      statement.condition? = some condition ∧
      ∃ front back, statement.text = front ++ condition.text "" ++ back := by
  obtain ⟨selected, -, h⟩ := except_bind_eq_ok.mp h
  obtain ⟨condition, hcondition, h⟩ := except_bind_eq_ok.mp h
  obtain ⟨⟨⟩, -, h⟩ := except_bind_eq_ok.mp h
  cases h
  exact ⟨condition, hcondition, rfl, _, _, String.append_assoc⟩

/-- The condition of a deletion is that of its predicate. -/
theorem condition_of_delete {shape : DeleteShape}
    (h : Statement.ofShape s table (.delete shape) = .ok statement) :
    ∃ condition, s.condition [] shape.predicate = .ok condition ∧
      statement.condition? = some condition ∧
      ∃ front back, statement.text = front ++ condition.text "" ++ back := by
  obtain ⟨condition, hcondition, h⟩ := except_bind_eq_ok.mp h
  obtain ⟨returned, -, h⟩ := except_bind_eq_ok.mp h
  cases h
  exact ⟨condition, hcondition, rfl, _, _, rfl⟩

/-- The condition of an update is that of its predicate, checked beside the columns that are set. -/
theorem condition_of_update {shape : UpdateShape}
    (h : Statement.ofShape s table (.update shape) = .ok statement) :
    ∃ columns condition, s.ordered shape.set = .ok columns ∧
      s.condition columns shape.predicate = .ok condition ∧
      statement.condition? = some condition ∧
      ∃ front back, statement.text = front ++ condition.text whereMark ++ back := by
  obtain ⟨columns, hcolumns, h⟩ := except_bind_eq_ok.mp h
  split at h
  · cases h
  obtain ⟨condition, hcondition, h⟩ := except_bind_eq_ok.mp h
  cases h
  exact ⟨columns, condition, hcolumns, hcondition, rfl, _, "", String.append_empty.symm⟩

end Statements

namespace Operation

variable {σ ρ : Type} {t : Table ρ} {E : Interface σ} {earlier : List Shape} {f : Filter}

/-- What an accepted selection asks for, and what is built of it. -/
theorem exists_checked_of_filtered {α : Type} {projection : Projection} {o : SelectOptions}
    (ho : o.limit = none) {k : String × Params → Building α} {a : α}
    (h : ((t.filtered projection f o >>= k) (t.newCache.requested earlier)).1 = .ok a) :
    ∃ condition params, ∃ (statement : Statement) (c : StatementCache),
      f.checked t.schema = .ok (condition, params) ∧ statement.condition? = some condition ∧
      (∃ front back, statement.text = front ++ condition.text "" ++ back) ∧
      (k (statement.text, params) c).1 = .ok a := by
  obtain ⟨⟨text, params⟩, hbuilt, hk⟩ := Table.building_bind_eq_ok.mp h
  obtain ⟨⟨predicate, q⟩, hf, hbuilt⟩ := Table.building_bind_eq_ok.mp hbuilt
  change f.compile t.schema "" = .ok (predicate, q) at hf
  obtain ⟨ht, rfl⟩ := Table.selection_eq_ok.mp hbuilt
  change (Table.statement _ (t.newCache.requested earlier)).1 = .ok text at ht
  obtain ⟨statement, hstatement, rfl⟩ := exists_statement ht
  obtain ⟨condition, hcondition, hsome, htext⟩ := condition_of_select hstatement
  have hall : o.limited q = q := by rw [SelectOptions.limited, ho]
  rw [hall] at hk
  exact ⟨condition, q, statement, _, Filter.checked_eq_ok.mpr ⟨predicate, hf, hcondition⟩, hsome,
    htext, hk⟩

/-- What an accepted deletion asks for. -/
theorem exists_checked_of_delete {returning : Option Returning}
    {predicate : Predicate} {text : String} {params : Params}
    (hf : f.compile t.schema "" = .ok (predicate, params))
    (ht : (Table.statement (.delete ⟨predicate, returning⟩) (t.newCache.requested earlier)).1 =
      .ok text) :
    ∃ condition, ∃ statement : Statement, statement.text = text ∧
      f.checked t.schema = .ok (condition, params) ∧
      statement.condition? = some condition ∧
      ∃ front back, statement.text = front ++ condition.text "" ++ back := by
  obtain ⟨statement, hstatement, rfl⟩ := exists_statement ht
  obtain ⟨condition, hcondition, hsome, htext⟩ := condition_of_delete hstatement
  exact ⟨condition, statement, rfl, Filter.checked_eq_ok.mpr ⟨predicate, hf, hcondition⟩, hsome,
    htext⟩

/-- An accepted operation that takes what a filter chooses asks for it with the condition and the
values of the filter. -/
theorem exists_conditioned {o : Operation ρ} (ho : o.Takes f) {job : Job (σ × List Request) Unit}
    (h : (o.job t E.recorded (t.newCache.requested earlier)).1 = .ok job) :
    ∃ condition params, f.checked t.schema = .ok (condition, params) ∧
      Job.Conditioned E "" condition params job := by
  cases ho with
  | select wants hlimit =>
    obtain ⟨rows, hjob, hands⟩ := exists_of_consuming h
    obtain ⟨condition, params, statement, _, hchecked, hsome, htext, hjob⟩ :=
      exists_checked_of_filtered hlimit hjob
    cases hjob
    exact ⟨condition, params, hchecked, statement, hsome, htext,
      hands _ _ (RowJob.hands_rows rfl _)⟩
  | selectRows columns wants hlimit =>
    obtain ⟨rows, hjob, hands⟩ := exists_of_consuming h
    obtain ⟨ordered, hordered, hjob⟩ := Table.building_bind_eq_ok.mp hjob
    obtain ⟨condition, params, statement, _, hchecked, hsome, htext, hjob⟩ :=
      exists_checked_of_filtered hlimit hjob
    cases hjob
    exact ⟨condition, params, hchecked, statement, hsome, htext,
      hands _ _ (RowJob.hands_rows rfl _)⟩
  | count =>
    obtain ⟨answering, hjob, hands⟩ := exists_of_forgetting h
    obtain ⟨condition, params, statement, _, hchecked, hsome, htext, hjob⟩ :=
      exists_checked_of_filtered rfl hjob
    cases hjob
    refine ⟨condition, params, hchecked, statement, hsome, htext, hands _ _ ?_⟩
    exact (Job.hands_integer rfl).congr fun s => Job.state_bind_pure _ _ s
  | «exists» =>
    obtain ⟨answering, hjob, hands⟩ := exists_of_forgetting h
    obtain ⟨condition, params, statement, _, hchecked, hsome, htext, hjob⟩ :=
      exists_checked_of_filtered rfl hjob
    cases hjob
    refine ⟨condition, params, hchecked, statement, hsome, htext, hands _ _ ?_⟩
    exact (Job.hands_integer rfl).congr fun s => Job.state_bind_pure _ _ s
  | delete =>
    obtain ⟨answering, hjob, hands⟩ := exists_of_forgetting h
    obtain ⟨⟨predicate, params⟩, hf, hjob⟩ := Table.building_bind_eq_ok.mp hjob
    obtain ⟨text, ht, hjob⟩ := Table.building_bind_eq_ok.mp hjob
    cases hjob
    obtain ⟨condition, statement, rfl, hchecked, hsome, htext⟩ := exists_checked_of_delete hf ht
    exact ⟨condition, params, hchecked, statement, hsome, htext, hands _ _ (Job.hands_change rfl)⟩
  | deleteReturning wants =>
    obtain ⟨rows, hjob, hands⟩ := exists_of_consuming h
    obtain ⟨⟨predicate, params⟩, hf, hjob⟩ := Table.building_bind_eq_ok.mp hjob
    obtain ⟨text, ht, hjob⟩ := Table.building_bind_eq_ok.mp hjob
    cases hjob
    obtain ⟨condition, statement, rfl, hchecked, hsome, htext⟩ := exists_checked_of_delete hf ht
    exact ⟨condition, params, hchecked, statement, hsome, htext,
      hands _ _ (RowJob.hands_rows rfl _)⟩

/-- An accepted update asks for its condition under the mark. -/
theorem exists_conditioned_update {set : Row} {conflict : Option Conflict}
    {job : Job (σ × List Request) Unit}
    (h : ((Operation.update set f conflict).job t E.recorded (t.newCache.requested earlier)).1 =
      .ok job) :
    ∃ condition params bound, f.checked t.schema = .ok (condition, params) ∧
      Job.Conditioned E whereMark condition bound job ∧
      AgreesInUpdate t.schema set condition params bound := by
  obtain ⟨answering, hjob, hands⟩ := exists_of_forgetting h
  obtain ⟨columns, hcolumns, hjob⟩ := Table.building_bind_eq_ok.mp hjob
  obtain ⟨⟨predicate, compared⟩, hf, hjob⟩ := Table.building_bind_eq_ok.mp hjob
  obtain ⟨text, ht, hjob⟩ := Table.building_bind_eq_ok.mp hjob
  obtain ⟨p, hp, hjob⟩ := Table.building_bind_eq_ok.mp hjob
  cases hjob
  obtain ⟨statement, hstatement, rfl⟩ := exists_statement ht
  obtain ⟨columns', condition, hcolumns', hcondition, hsome, htext⟩ :=
    condition_of_update hstatement
  have hsame : t.schema.ordered columns = .ok columns' := hcolumns'
  rw [Schema.ordered_ordered hcolumns] at hsame
  cases hsame
  obtain ⟨params, hchecked, hagrees⟩ := agrees_of_update hcolumns hf hcondition hp
  exact ⟨condition, params, _, hchecked,
    ⟨statement, hsome, htext, hands _ _ (Job.hands_change rfl)⟩, hagrees⟩

end Operation

/-- The accepted operations that take what a filter chooses ask for it with one condition and one
list of values, those of the filter. An accepted update asks for the same condition with its
placeholders marked, and has the same values under these. Where an engine decides every row by the
condition and the values alone (`ReadsConditions`), the update chooses the same rows, unless the
clause of the caller reads a column that is set behind a quote that a comment leaves open. A clause
that goes on behind its condition is not decided row by row: `id >= 0 LIMIT 1` selects one row, and
counts all of them. -/
theorem one_condition_of_filter {σ ρ : Type} (t : Table ρ) (E : Interface σ)
    (earlier : List Shape) (f : Filter) :
      (∀ (o : Operation ρ) (job : Job (σ × List Request) Unit), o.Takes f →
      (o.job t E.recorded (t.newCache.requested earlier)).1 = .ok job →
        ∃ condition params, f.checked t.schema = .ok (condition, params) ∧
          Job.Conditioned E "" condition params job) ∧
    ∀ (set : Row) (conflict : Option Conflict) (job : Job (σ × List Request) Unit),
      ((Operation.update set f conflict).job t E.recorded (t.newCache.requested earlier)).1 =
        .ok job →
        ∃ condition params bound, f.checked t.schema = .ok (condition, params) ∧
          Job.Conditioned E whereMark condition bound job ∧
          AgreesInUpdate t.schema set condition params bound :=
  ⟨fun _ _ ho h => Operation.exists_conditioned ho h,
    fun _ _ _ h => Operation.exists_conditioned_update h⟩

open Example

/-- What some clauses say of a number: that it equals a bound value, or that it is greater than
one. -/
def saysOfNumber (text : String) (params : Params) (row : Cells) : Prop :=
  text = "" ∨
  text = " WHERE id=:id" ∧ Matches (fun _ a b => a = b) row "id" (params.valueOf ":id") ∨
  text = " WHERE id=:__where_id" ∧
    Matches (fun _ a b => a = b) row "id" (params.valueOf ":__where_id") ∨
  text = " WHERE id > :low" ∧ ∃ i low, row "id" = .integer i ∧
    params.valueOf ":low" = .integer low ∧ low < i

theorem saysOfNumber_congr {clause : String} {p q : Params} {row : Cells}
    (h : ∀ x ∈ Clause.variableTexts clause, p.valueOf x = q.valueOf x)
    (hp : saysOfNumber (" WHERE " ++ clause) p row) : saysOfNumber (" WHERE " ++ clause) q row := by
  have hclause : ∀ other, " WHERE " ++ clause = " WHERE " ++ other → clause = other :=
    fun _ => (String.append_right_inj " WHERE ").mp
  rcases hp with hnone | ⟨htext, hmatches⟩ | ⟨htext, hmatches⟩ | ⟨htext, i, low, hi, hlow, hlt⟩
  · exact .inl hnone
  · rw [hclause "id=:id" htext] at h
    exact .inr (.inl ⟨htext, h ":id" (by decide +kernel) ▸ hmatches⟩)
  · rw [hclause "id=:__where_id" htext] at h
    exact .inr (.inr (.inl ⟨htext, h ":__where_id" (by decide +kernel) ▸ hmatches⟩))
  · rw [hclause "id > :low" htext] at h
    exact .inr (.inr (.inr ⟨htext, i, low, hi, h ":low" (by decide +kernel) ▸ hlow, hlt⟩))

/-- Something matches what a variable is bound to exactly if it matches what its name is bound
to. -/
theorem matches_valueOf {equal : String → Stored → Stored → Prop} {row : Cells}
    {column name : String} {p : Params} :
    Matches equal row column (p.valueOf (placeholder name)) ↔
      ∃ v, p.get? name = some v ∧ Matches equal row column v := by
  rw [Params.valueOf_placeholder]
  cases p.get? name with
  | none => simp [Matches, Stored.kept]
  | some v => simp

theorem saysOfNumber_reads : ReadsConditions saysOfNumber (fun _ a b => a = b) numbers.schema where
  plain := by
    refine ⟨fun _ _ => .inl rfl, fun columns params row hne hsub => ?_⟩
    have hcolumns : columns = ["id"] := (List.sublist_singleton.mp hsub).resolve_left hne
    subst hcolumns
    have htext : (Condition.equalities ["id"]).text "" = " WHERE id=:id" := by decide
    rw [List.forall_mem_singleton, htext, String.empty_append, ← matches_valueOf]
    simp [saysOfNumber, placeholder]
  marked := by
    refine ⟨fun _ _ => .inl rfl, fun columns params row hne hsub => ?_⟩
    have hcolumns : columns = ["id"] := (List.sublist_singleton.mp hsub).resolve_left hne
    subst hcolumns
    have htext : (Condition.equalities ["id"]).text whereMark = " WHERE id=:__where_id" := by decide
    rw [List.forall_mem_singleton, htext, ← matches_valueOf]
    simp [saysOfNumber, placeholder, whereMark]
  clause clause mark p q row h :=
    ⟨fun hp => saysOfNumber_congr h hp, fun hq => saysOfNumber_congr (fun x hx => (h x hx).symm) hq⟩

/-- Numbers above a bound are counted under one condition, and updated under the same one. -/
theorem one_condition_of_filter_of_numbers :
    ReadsConditions saysOfNumber (fun _ a b => a = b) numbers.schema ∧
    ∃ params bound,
      (∃ job, ((Operation.count (.raw "id > :low" (oneInteger "low" 1))).job numbers
        Connection.interface.recorded
        (numbers.newCache.requested [])).1 = .ok job ∧
        Job.Conditioned Connection.interface "" (.clause "id > :low") params job) ∧
      (∃ job, ((Operation.update (oneInteger "id" 7)
        (.raw "id > :low" (oneInteger "low" 1)) none).job numbers
        Connection.interface.recorded (numbers.newCache.requested [])).1 = .ok job ∧
        Job.Conditioned Connection.interface whereMark (.clause "id > :low") bound job) ∧
      (∀ row, saysOfNumber " WHERE id > :low" params row ↔
        saysOfNumber " WHERE id > :low" bound row) ∧
      saysOfNumber " WHERE id > :low" params (fun _ => .integer 5) := by
  obtain ⟨htakes, hupdate⟩ := one_condition_of_filter numbers Connection.interface []
    (.raw "id > :low" (oneInteger "low" 1))
  have hchecked : (Filter.raw "id > :low" (oneInteger "low" 1)).checked numbers.schema =
      .ok (.clause "id > :low", .ofRow (oneInteger "low" 1)) := by rfl
  obtain ⟨counting, hcounting⟩ :
      ∃ job, ((Operation.count (.raw "id > :low" (oneInteger "low" 1))).job numbers
      Connection.interface.recorded (numbers.newCache.requested [])).1 = .ok job := ⟨_, rfl⟩
  obtain ⟨updating, hupdating⟩ : ∃ job, ((Operation.update (oneInteger "id" 7)
      (.raw "id > :low" (oneInteger "low" 1)) none).job numbers Connection.interface.recorded
        (numbers.newCache.requested [])).1 = .ok job := ⟨_, rfl⟩
  obtain ⟨condition, params, hcondition, hcount⟩ := htakes (.count _) counting .count hcounting
  cases hcondition.symm.trans hchecked
  obtain ⟨condition, params, bound, hcondition, hupdate, hagrees⟩ :=
    hupdate _ none updating hupdating
  cases hcondition.symm.trans hchecked
  have hfree : ∀ column ∈ (oneInteger "id" 7).names,
      ¬ (Condition.clause "id > :low").Reads column := by
    rintro column hcolumn ⟨clause, hclause, hread⟩
    cases hclause
    have hid : column = "id" := List.mem_singleton.mp hcolumn
    subst hid
    revert hread
    decide +kernel
  refine ⟨saysOfNumber_reads, _, bound, ⟨counting, hcounting, hcount⟩,
    ⟨updating, hupdating, hupdate⟩, hagrees.chosen saysOfNumber_reads hfree, ?_⟩
  exact .inr (.inr (.inr ⟨rfl, 5, 1, rfl, rfl, by decide⟩))

/-- A clause in which the number is compared with itself, behind a comment with a quote. -/
def hidingClause : String := "id > 0 -- '\n AND id = :id"

/-- The check of the clause overlooks the variable. Of the numbers -5, 0 and 5 the filter counts
none, since the variable is NULL; an update that sets the number to 5 changes one. -/
theorem hidden_variable_changes_rows :
    ((numbers.count Connection.interface (.raw hidingClause .empty)).runDirect
        ⟨numbers.newCache, numbersAt⟩).1 = .ok 0 ∧
      ((numbers.update Connection.interface (oneInteger "id" 5)
        (.raw hidingClause .empty) none).runDirect
        ⟨numbers.newCache, numbersAt⟩).1 = .ok 1 := by
  constructor <;> decide +kernel

end TypedTables
