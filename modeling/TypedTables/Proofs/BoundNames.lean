import TypedTables.Proofs.BuildTimeErrors
import TypedTables.Proofs.SelectionLimits
import TypedTables.Proofs.StatementPlaceholders

/-!
# The names that are bound with a statement

The text of a statement and its parameters are built apart and meet when the statement is run. In
every operation the names that are bound are the placeholders of the text, if quoted text in the
clause of the caller does not count. The engine reads the same names there, if the clause closes its
quotes and the text is legible; a comment or a letter beyond ASCII may make it read others.
-/
namespace TypedTables

open Engine

/-- The clause of a predicate, without the blanks around it. -/
def Predicate.clause? : Predicate → Option String
  | .raw clause _ => some (Text.trim clause)
  | _ => none

def Predicate.bound (mark : String) : Predicate → List String
  | .all => []
  | .columns names => names.map (mark ++ ·)
  | .raw _ params => params

def Filter.clause? : Filter → Option String
  | .raw clause _ => some (Text.trim clause)
  | _ => none

namespace Shape

def isDefinition : Shape → Bool
  | .createTable _ | .createIndex _ => true
  | _ => false

def clause? (shape : Shape) : Option String := shape.predicate?.bind Predicate.clause?

def bound (s : Schema) : Shape → List String
  | .createTable _ | .createIndex _ => []
  | .insert shape => match shape.columns with
    | .all => s.names
    | .only names => names
  | .select shape => shape.predicate.bound "" ++ if shape.limit then [limitPlaceholder] else []
  | .update shape => shape.set ++ shape.predicate.bound whereMark
  | .delete shape => shape.predicate.bound ""

end Shape

/-- The parameters of a statement, which may hold a clause of the caller, are the names behind
colons in it where quoted text of the clause does not count. The engine reads these in the text, if
the clause closes the quotes that it opens and the text is legible. -/
structure Paired (clause? : Option String) (statement : Statement) (params : Params) : Prop where
  clause : ∀ clause ∈ clause?, statement.condition? = some (.clause clause)
  unquoted : clause? = none → statement.unquoted = statement
  once : params.names.Nodup
  spelled : ∀ name, name ∈ params.names ↔
    [.sign ':', .word name] <:+: Text.lexemes statement.unquoted.text
  read : (∀ clause ∈ clause?, Clause.openAfter none clause.toList = none ∧
    Clause.Legible statement.text) →
    ∀ x, x ∈ Clause.variableTexts statement.text ↔ x ∈ params.names.map placeholder

section Statements

open Clause

variable {s : Schema} {table : TableName} {shape : Shape} {statement : Statement}
    {condition : Condition}
  {set : List String} {predicate : Predicate} {params : Params} {clause : String}

/-- An accepted condition has the placeholders of its predicate. -/
theorem placeholders_of_condition (h : s.condition set predicate = .ok condition) (mark : String) :
    ∃ ns, condition.placeholders mark = .ok ns ∧ ∀ name, name ∈ ns ↔
    name ∈ predicate.bound mark := by
  cases predicate with
  | all =>
    cases h
    exact ⟨[], rfl, fun name => Iff.rfl⟩
  | columns names =>
    obtain ⟨columns, hcolumns, h⟩ := except_bind_eq_ok.mp h
    split at h
    · cases h
    cases h
    refine ⟨_, rfl, fun name => ?_⟩
    simp only [Predicate.bound, List.mem_map, Schema.mem_ordered_iff hcolumns]
  | raw clause declared =>
    obtain ⟨rfl, found, hpassed⟩ := condition_raw h
    refine ⟨found, hpassed.scanned, fun name => ⟨fun hname => (hpassed.found_ok name hname).1, ?_⟩⟩
    exact hpassed.declared_found name

/-- An accepted statement has the placeholders of its shape. -/
theorem placeholders_of_ofShape (h : Statement.ofShape s table shape = .ok statement)
    (hnew : shape.isDefinition = false) :
    statement.isDefinition = false ∧
      ∃ ns, statement.placeholders = .ok ns ∧ ∀ name, name ∈ ns ↔ name ∈ shape.bound s := by
  cases shape with
  | createTable | createIndex => cases hnew
  | insert shape =>
    obtain ⟨columns, hcolumns, h⟩ := except_bind_eq_ok.mp h
    obtain ⟨returned, -, h⟩ := except_bind_eq_ok.mp h
    cases h
    refine ⟨rfl, columns, rfl, fun name => ?_⟩
    rw [Shape.bound]
    cases hchoice : shape.columns with
    | all =>
      rw [hchoice] at hcolumns
      cases hcolumns
      exact Iff.rfl
    | only names =>
      rw [hchoice] at hcolumns
      exact Schema.mem_ordered_iff hcolumns
  | select shape =>
    obtain ⟨selected, -, h⟩ := except_bind_eq_ok.mp h
    obtain ⟨condition, hcondition, h⟩ := except_bind_eq_ok.mp h
    obtain ⟨⟨⟩, -, h⟩ := except_bind_eq_ok.mp h
    cases h
    obtain ⟨ns, hns, hmem⟩ := placeholders_of_condition hcondition ""
    refine ⟨rfl, _, except_map_eq_ok.mpr ⟨ns, hns, rfl⟩, fun name => ?_⟩
    rw [Shape.bound, List.mem_append, List.mem_append, hmem]
  | update shape =>
    obtain ⟨set, hset, h⟩ := except_bind_eq_ok.mp h
    split at h
    · cases h
    obtain ⟨condition, hcondition, h⟩ := except_bind_eq_ok.mp h
    cases h
    obtain ⟨ns, hns, hmem⟩ := placeholders_of_condition hcondition whereMark
    refine ⟨rfl, _, except_map_eq_ok.mpr ⟨ns, hns, rfl⟩, fun name => ?_⟩
    rw [Shape.bound, List.mem_append, List.mem_append, hmem, Schema.mem_ordered_iff hset]
  | delete shape =>
    obtain ⟨condition, hcondition, h⟩ := except_bind_eq_ok.mp h
    obtain ⟨returned, -, h⟩ := except_bind_eq_ok.mp h
    cases h
    obtain ⟨ns, hns, hmem⟩ := placeholders_of_condition hcondition ""
    exact ⟨rfl, ns, hns, hmem⟩

/-- An accepted statement holds the clause of its shape, and no other. -/
theorem clause_of_ofShape (h : Statement.ofShape s table shape = .ok statement)
    (hnew : shape.isDefinition = false) :
    statement.condition? = some (.clause clause) ↔ clause ∈ shape.clause? := by
  by_cases hraw : ∃ text declared, shape.predicate? = some (.raw text declared)
  · obtain ⟨text, declared, hp⟩ := hraw
    rw [(passed_of_shape h hp).1, Shape.clause?, hp]
    simp [Predicate.clause?, eq_comm]
  · have hnone : clause ∉ shape.clause? := by
      intro hclause
      obtain ⟨predicate, hp, hpc⟩ := Option.bind_eq_some_iff.mp hclause
      cases predicate with
      | raw text declared => exact hraw ⟨text, declared, hp⟩
      | _ => cases hpc
    have hplain : statement.Plain := by
      refine Statement.plain_of_ofShape h ?_ ?_
      · cases shape with
        | select shape | update shape | delete shape =>
          cases hp : shape.predicate with
          | raw text declared => exact absurd ⟨text, declared, congrArg some hp⟩ hraw
          | _ => simp [Shape.isRaw, hp, Predicate.isRaw]
        | _ => rfl
      · rintro options rfl
        cases hnew
    refine iff_of_false (fun hc => ?_) hnone
    cases statement with
    | createTable | createIndex | insert => cases hc
    | _ =>
      cases hc
      exact hplain

/-- Parameters are paired with a statement if they have the names of its shape. A clause that the
library wrote is made of ordinary characters. -/
theorem paired_of_ofShape (h : Statement.ofShape s table shape = .ok statement)
    (hnew : shape.isDefinition = false)
    (hnames : ∀ name, name ∈ params.names ↔ name ∈ shape.bound s) {clause? : Option String}
    (hclause : ∀ clause ∈ clause?, clause ∈ shape.clause?)
    (hown : clause? = none → ∀ clause ∈ shape.clause?, Ordinary clause.toList) :
    Paired clause? statement params := by
  obtain ⟨hdef, ns, hns, hmem⟩ := placeholders_of_ofShape h hnew
  have hdeclared := Statement.declared_of_ofShape h
  have hscan := Statement.scan_text hdeclared hdef hns
  have hcondition : ∀ clause ∈ clause?, statement.condition? = some (.clause clause) :=
    fun clause hc => (clause_of_ofShape h hnew).mpr (hclause clause hc)
  have hordinary : clause? = none → ∀ clause, statement.condition? = some (.clause clause) →
      Ordinary clause.toList :=
    fun hnone clause hc => hown hnone clause ((clause_of_ofShape h hnew).mp hc)
  refine ⟨hcondition, fun hnone => ?_, params.names_nodup, fun name => ?_, fun hread x => ?_⟩
  · rcases Statement.plain_or_clause hdef with hplain | ⟨clause, hc⟩
    · exact Statement.unquoted_of_plain hplain
    · rw [Statement.unquoted_of_condition hc, Condition.unquoted,
        (hordinary hnone clause hc).quiet.unquoted, String.ofList_toList]
      exact Statement.withCondition_self hc
  · rw [hnames, ← hmem]
    exact mem_of_scan hscan
  · -- a clause that the library wrote, if there is one, has neither quotes nor comments
    have hcloses : statement.ClosesQuotes ∧ Legible statement.text := by
      cases clause? with
      | none =>
        exact ⟨fun clause hc => (hordinary rfl clause hc).quiet.openAfter,
          legible_of_ordinary (Statement.ordinary_text hdeclared hdef (hordinary rfl))⟩
      | some clause =>
        obtain ⟨hopen, hlegible⟩ := hread clause rfl
        refine ⟨fun other hother => ?_, hlegible⟩
        rw [hcondition clause rfl] at hother
        cases hother
        exact hopen
    rw [Statement.variableTexts_text hdeclared hdef hcloses.1 hcloses.2 hns]
    simp only [List.mem_map, hnames, hmem]

/-- Parameters with the names of a shape are paired with its statement. -/
theorem paired_of_names (h : Statement.ofShape s table shape = .ok statement)
    (hnew : shape.isDefinition = false)
    (hnames : ∀ name, name ∈ params.names ↔ name ∈ shape.bound s) :
    Paired shape.clause? statement params := by
  refine paired_of_ofShape h hnew hnames (fun _ hc => hc) fun hnone clause hc => ?_
  rw [hnone] at hc
  cases hc

end Statements

section Values

variable {s : Schema} {f : Filter} {row : Row} {mark : String}
    {predicate : Predicate} {params : Params}

theorem names_of_encodeRow (h : s.encodeRow row "" = .ok params) : params.names = row.names := by
  rw [(Schema.encodeRow_spec h).1]
  exact (List.map_congr_left fun _ _ => String.empty_append).trans (List.map_id _)

/-- A compiled filter has the values of its predicate. -/
theorem names_of_compile (h : f.compile s mark = .ok (predicate, params)) :
    predicate.clause? = f.clause? ∧ ∀ name, name ∈ params.names ↔ name ∈ predicate.bound mark := by
  cases f with
  | all =>
    cases h
    exact ⟨rfl, fun name => Iff.rfl⟩
  | eq row =>
    rw [Filter.compile] at h
    split at h
    · cases h
    obtain ⟨columns, hcolumns, h⟩ := except_bind_eq_ok.mp h
    obtain ⟨q, hq, h⟩ := except_bind_eq_ok.mp h
    cases h
    refine ⟨rfl, fun name => ?_⟩
    rw [(Schema.encodeRow_spec hq).1]
    simp only [Predicate.bound, List.mem_map, Schema.mem_ordered_iff hcolumns]
  | raw clause given =>
    cases h
    refine ⟨rfl, fun name => ?_⟩
    rw [Params.names_ofRow]
    exact Iff.rfl

/-- The names of compared values start with no colon, so they are bound as they stand. -/
theorem bareName_of_condition {columns : List String} {condition : Condition}
    (h : s.condition columns predicate = .ok condition) :
    ∀ name ∈ predicate.bound whereMark, Params.bareName name = name := by
  intro name hname
  cases predicate with
  | all => cases hname
  | columns names =>
    obtain ⟨column, -, rfl⟩ := List.mem_map.mp hname
    exact bareName_marked column
  | raw clause declared =>
    obtain ⟨-, found, hpassed⟩ := condition_raw h
    have hid := (hpassed.declared_ok name hname).1
    refine Params.bareName_of_head fun hcolon => ?_
    rw [Text.isIdentifier] at hid
    cases hchars : name.toList with
    | nil => simp [hchars] at hcolon
    | cons c cs =>
      rw [hchars, List.head?_cons, Option.some.injEq] at hcolon
      rw [hchars, hcolon] at hid
      exact absurd hid (by simp [Text.isIdentifierChars, Text.isNameStart])

/-- The values of an accepted update have the names of its shape. -/
theorem names_of_update {table : TableName} {columns : List String} {conflict : Option Conflict}
    {statement : Statement} {q : Params}
    (h : Statement.ofShape s table (.update ⟨columns, predicate, conflict⟩) = .ok statement)
    (hset : ∀ name, name ∈ params.names ↔ name ∈ columns)
    (hcompared : ∀ name, name ∈ q.names ↔ name ∈ predicate.bound whereMark) (name : String) :
    name ∈ (params.extend q).names ↔
    name ∈ (Shape.update ⟨columns, predicate, conflict⟩).bound s := by
  obtain ⟨ordered, -, h⟩ := except_bind_eq_ok.mp h
  split at h
  · cases h
  obtain ⟨condition, hcondition, -⟩ := except_bind_eq_ok.mp h
  have hbare : ∀ other ∈ q.names, Params.bareName other = other :=
    fun other hother => bareName_of_condition hcondition other ((hcompared other).mp hother)
  rw [Params.mem_names_extend params q hbare, hset, hcompared, Shape.bound, List.mem_append]

theorem mem_names_limited {o : SelectOptions} {name : String} :
    name ∈ (o.limited params).names ↔
      name ∈ params.names ∨ name ∈ if o.limit.isSome then [limitPlaceholder] else [] := by
  rw [SelectOptions.limited]
  cases o.limit with
  | none => simp
  | some n => simp [Params.mem_names_push, or_comm]

end Values

/-! ### Operations that run one statement -/

namespace Operation

variable {σ ρ : Type} {t : Table ρ} {E : Interface σ} {earlier : List Shape}

/-- Whether an operation runs one statement, with values. -/
def isSingle : Operation ρ → Bool
  | .create _ | .createIndex _ | .bootstrapAll | .batch _ _ => false
  | _ => true

/-- The clause of the caller, without the blanks around it. -/
def clause? : Operation ρ → Option String
  | .select f _ _ | .selectOne f _ | .selectRows _ f _ _ | .count f | .exists
      f | .update _ f _ | .delete f
  | .deleteReturning f _ => f.clause?
  | _ => none

/-- The statement of a shape whose text was built. -/
theorem exists_statement {shape : Shape} {text : String}
    (h : (Table.statement shape (t.newCache.requested earlier)).1 = .ok text) :
    ∃ statement, Statement.ofShape t.schema t.name shape = .ok statement ∧
    statement.text = text := by
  rw [Table.newCache, Table.statement_requested] at h
  exact except_map_eq_ok.mp h

/-- What an accepted selection binds, and what is built of it. -/
theorem exists_of_filtered {α : Type} {projection : Projection} {f : Filter} {o : SelectOptions}
    {k : String × Params → Building α} {a : α}
    (h : ((t.filtered projection f o >>= k) (t.newCache.requested earlier)).1 = .ok a) :
    ∃ (statement : Statement) (params : Params) (c : StatementCache),
      Paired f.clause? statement params ∧ (k (statement.text, params) c).1 = .ok a := by
  obtain ⟨⟨text, params⟩, hbuilt, hk⟩ := Table.building_bind_eq_ok.mp h
  obtain ⟨⟨predicate, q⟩, hf, hbuilt⟩ := Table.building_bind_eq_ok.mp hbuilt
  change f.compile t.schema "" = .ok (predicate, q) at hf
  obtain ⟨ht, rfl⟩ := Table.selection_eq_ok.mp hbuilt
  change (Table.statement _ (t.newCache.requested earlier)).1 = .ok text at ht
  obtain ⟨statement, hstatement, rfl⟩ := exists_statement ht
  obtain ⟨hclause, hnames⟩ := names_of_compile hf
  refine ⟨statement, _, _, ?_, hk⟩
  rw [← hclause]
  refine paired_of_names hstatement rfl fun name => ?_
  rw [mem_names_limited, hnames, Shape.bound, List.mem_append]

/-- What an accepted update binds. -/
theorem paired_of_update {set : Row} {columns : List String} {f : Filter} {predicate : Predicate}
    {params compared : Params} {conflict : Option Conflict} {text : String}
    (hcolumns : t.schema.orderedNames set = .ok columns)
    (hf : f.compile t.schema whereMark = .ok (predicate, compared))
    (ht : (Table.statement (.update ⟨columns, predicate, conflict⟩)
      (t.newCache.requested earlier)).1 = .ok text)
    (hparams : t.schema.encodeRow set "" = .ok params) :
    ∃ statement : Statement, statement.text = text ∧
    Paired f.clause? statement (params.extend compared) := by
  obtain ⟨statement, hstatement, rfl⟩ := exists_statement ht
  obtain ⟨hclause, hcompared⟩ := names_of_compile hf
  have hset : ∀ name, name ∈ params.names ↔ name ∈ columns := by
    intro name
    rw [names_of_encodeRow hparams]
    exact (Schema.mem_ordered_iff hcolumns).symm
  refine ⟨statement, rfl, ?_⟩
  rw [← hclause]
  exact paired_of_names hstatement rfl (names_of_update hstatement hset hcompared)

/-- What an accepted deletion binds. -/
theorem paired_of_delete {f : Filter} {returning : Option Returning}
    {predicate : Predicate} {text : String} {params : Params}
    (hf : f.compile t.schema "" = .ok (predicate, params))
    (ht : (Table.statement (.delete ⟨predicate, returning⟩) (t.newCache.requested earlier)).1 =
      .ok text) :
    ∃ statement : Statement, statement.text = text ∧ Paired f.clause? statement params := by
  obtain ⟨statement, hstatement, rfl⟩ := exists_statement ht
  obtain ⟨hclause, hnames⟩ := names_of_compile hf
  refine ⟨statement, rfl, ?_⟩
  rw [← hclause]
  exact paired_of_names hstatement rfl hnames

/-- The start of a page is written by the library, in ordinary characters. -/
theorem paired_of_page {size : UInt64} {text : String} {params : Params}
    (h : (Table.selection .rowidAndAll (.raw "rowid > :not_before" [Table.pageStart])
      ⟨[("rowid", .ascending)], some size, false⟩ .empty (t.newCache.requested earlier)).1 =
        .ok (text, params)) :
    ∃ statement : Statement, statement.text = text ∧
      ∀ rowid, Paired none statement (params.push Table.pageStart (.integer rowid)) := by
  obtain ⟨ht, rfl⟩ := Table.selection_eq_ok.mp h
  obtain ⟨statement, hstatement, rfl⟩ := exists_statement ht
  refine ⟨statement, rfl, fun rowid => ?_⟩
  refine paired_of_ofShape hstatement rfl (fun name => ?_) (by simp) fun _ clause hc => ?_
  · rw [Params.mem_names_push, mem_names_limited, Params.names_empty]
    simp [Shape.bound, Predicate.bound]
  · cases hc
    rfl

theorem exists_of_forgetting {α : Type} {b : Building (Job (σ × List Request) α)}
    {c : StatementCache} {job : Job (σ × List Request) Unit} (h : (forgetting b c).1 = .ok job) :
    ∃ answering, (b c).1 = .ok answering ∧
      ∀ text Q, Job.Hands E text Q answering → Job.Hands E text Q job := by
  obtain ⟨answering, hanswering, hpure⟩ := Table.building_bind_eq_ok.mp h
  cases hpure
  refine ⟨answering, hanswering, fun text Q hands => hands.congr fun s => ?_⟩
  exact Job.state_bind_pure answering (fun _ => ()) s

theorem exists_of_consuming {α : Type} {b : Building (RowJob (σ × List Request) α)}
    {wants : Demand α} {c : StatementCache} {job : Job (σ × List Request) Unit}
    (h : (consuming b wants c).1 = .ok job) :
    ∃ rows, (b c).1 = .ok rows ∧ ∀ text Q, RowJob.Hands E text Q rows → Job.Hands E text Q job := by
  obtain ⟨rows, hrows, hpure⟩ := Table.building_bind_eq_ok.mp h
  cases hpure
  exact ⟨rows, hrows, fun text Q hands => hands wants⟩

/-- An accepted operation asks for one statement, with parameters that are paired with it. -/
theorem exists_hands (o : Operation ρ) (ho : o.isSingle = true) {job : Job (σ × List Request) Unit}
    (h : (o.job t E.recorded (t.newCache.requested earlier)).1 = .ok job) :
    ∃ statement : Statement, Job.Hands E statement.text (Paired o.clause? statement) job := by
  cases o with
  | create | createIndex | bootstrapAll | batch => cases ho
  | insert record conflict =>
    obtain ⟨answering, hjob, hands⟩ := exists_of_forgetting h
    obtain ⟨text, ht, hjob⟩ := Table.building_bind_eq_ok.mp hjob
    obtain ⟨params, hparams, hjob⟩ := Table.building_bind_eq_ok.mp hjob
    cases hjob
    obtain ⟨statement, hstatement, rfl⟩ := exists_statement ht
    refine ⟨statement, hands _ _ (Job.hands_change ?_)⟩
    exact paired_of_names hstatement rfl fun _ => Schema.mem_names_of_encodeRecord hparams
  | insertRow row =>
    obtain ⟨answering, hjob, hands⟩ := exists_of_forgetting h
    obtain ⟨columns, hcolumns, hjob⟩ := Table.building_bind_eq_ok.mp hjob
    obtain ⟨text, ht, hjob⟩ := Table.building_bind_eq_ok.mp hjob
    obtain ⟨params, hparams, hjob⟩ := Table.building_bind_eq_ok.mp hjob
    cases hjob
    obtain ⟨statement, hstatement, rfl⟩ := exists_statement ht
    refine ⟨statement, hands _ _ (Job.hands_change (paired_of_names hstatement rfl fun name => ?_))⟩
    rw [names_of_encodeRow hparams]
    exact (Schema.mem_ordered_iff hcolumns).symm
  | select f o wants =>
    obtain ⟨rows, hjob, hands⟩ := exists_of_consuming h
    obtain ⟨statement, params, _, hpaired, hjob⟩ := exists_of_filtered hjob
    cases hjob
    exact ⟨statement, hands _ _ (RowJob.hands_rows hpaired _)⟩
  | selectOne f o =>
    obtain ⟨answering, hjob, hands⟩ := exists_of_forgetting h
    obtain ⟨statement, params, _, hpaired, hjob⟩ := exists_of_filtered hjob
    cases hjob
    exact ⟨statement, hands _ _ (RowJob.hands_rows hpaired _).firstOf⟩
  | selectRows columns f o wants =>
    obtain ⟨rows, hjob, hands⟩ := exists_of_consuming h
    obtain ⟨ordered, hordered, hjob⟩ := Table.building_bind_eq_ok.mp hjob
    obtain ⟨statement, params, _, hpaired, hjob⟩ := exists_of_filtered hjob
    cases hjob
    exact ⟨statement, hands _ _ (RowJob.hands_rows hpaired _)⟩
  | selectPaginated size wants =>
    obtain ⟨rows, hjob, hands⟩ := exists_of_consuming h
    rw [RowJob.selectPaginated_eq] at hjob
    split at hjob
    · cases hjob
    obtain ⟨⟨text, params⟩, hbuilt, hjob⟩ := Table.building_bind_eq_ok.mp hjob
    cases hjob
    obtain ⟨statement, rfl, hpaired⟩ := paired_of_page hbuilt
    exact ⟨statement, hands _ _ (RowJob.hands_paginated t hpaired)⟩
  | count f =>
    obtain ⟨answering, hjob, hands⟩ := exists_of_forgetting h
    obtain ⟨statement, params, _, hpaired, hjob⟩ := exists_of_filtered hjob
    cases hjob
    refine ⟨statement, hands _ _ ((Job.hands_integer hpaired).congr fun s => ?_)⟩
    exact Job.state_bind_pure _ _ s
  | «exists» f =>
    obtain ⟨answering, hjob, hands⟩ := exists_of_forgetting h
    obtain ⟨statement, params, _, hpaired, hjob⟩ := exists_of_filtered hjob
    cases hjob
    refine ⟨statement, hands _ _ ((Job.hands_integer hpaired).congr fun s => ?_)⟩
    exact Job.state_bind_pure _ _ s
  | update set f conflict =>
    obtain ⟨answering, hjob, hands⟩ := exists_of_forgetting h
    obtain ⟨columns, hcolumns, hjob⟩ := Table.building_bind_eq_ok.mp hjob
    obtain ⟨⟨predicate, compared⟩, hf, hjob⟩ := Table.building_bind_eq_ok.mp hjob
    obtain ⟨text, ht, hjob⟩ := Table.building_bind_eq_ok.mp hjob
    obtain ⟨params, hparams, hjob⟩ := Table.building_bind_eq_ok.mp hjob
    cases hjob
    obtain ⟨statement, rfl, hpaired⟩ := paired_of_update hcolumns hf ht hparams
    exact ⟨statement, hands _ _ (Job.hands_change hpaired)⟩
  | delete f =>
    obtain ⟨answering, hjob, hands⟩ := exists_of_forgetting h
    obtain ⟨⟨predicate, params⟩, hf, hjob⟩ := Table.building_bind_eq_ok.mp hjob
    obtain ⟨text, ht, hjob⟩ := Table.building_bind_eq_ok.mp hjob
    cases hjob
    obtain ⟨statement, rfl, hpaired⟩ := paired_of_delete hf ht
    exact ⟨statement, hands _ _ (Job.hands_change hpaired)⟩
  | deleteReturning f wants =>
    obtain ⟨rows, hjob, hands⟩ := exists_of_consuming h
    obtain ⟨⟨predicate, params⟩, hf, hjob⟩ := Table.building_bind_eq_ok.mp hjob
    obtain ⟨text, ht, hjob⟩ := Table.building_bind_eq_ok.mp hjob
    cases hjob
    obtain ⟨statement, rfl, hpaired⟩ := paired_of_delete hf ht
    exact ⟨statement, hands _ _ (RowJob.hands_rows hpaired _)⟩

end Operation

namespace BatchRequest

variable {σ ρ ι : Type} {t : Table ρ} {E : Interface σ} {earlier : List Shape}

def clause? : BatchRequest ρ ι → Option String
  | .updateMany _ predicate => predicate.clause?
  | _ => none

/-- The compared values of one of several updates have the names of its predicate. -/
theorem names_of_encodeCompared {predicate : Predicate} {row : Row} {q : Params}
    (h : t.encodeCompared predicate row = .ok q) (name : String) :
    name ∈ q.names ↔ name ∈ predicate.bound whereMark := by
  cases predicate with
  | all =>
    obtain ⟨⟨⟩, -, h⟩ := except_bind_eq_ok.mp h
    cases h
    exact Iff.rfl
  | columns names =>
    obtain ⟨⟨⟩, hrow, hq⟩ := except_bind_eq_ok.mp h
    rw [(Schema.encodeRow_spec hq).1]
    simp only [Predicate.bound, List.mem_map, mem_names_of_expectColumns hrow]
  | raw clause declared =>
    obtain ⟨⟨⟩, hrow, h⟩ := except_bind_eq_ok.mp h
    cases h
    rw [Params.names_ofRow]
    exact (mem_names_of_expectColumns hrow name).symm

/-- The parameters of every item that is accepted are paired with the statement of the request. -/
theorem paired_of_plan {request : BatchRequest ρ ι} {first : Option ι} {shape : Shape}
    {encode : ι → Except Error Params} (hplan : request.plan t first = .ok (some (shape, encode)))
    {statement : Statement} (h : Statement.ofShape t.schema t.name shape = .ok statement) {item : ι}
    {params : Params} (hitem : encode item = .ok params) :
    Paired request.clause? statement params := by
  cases request with
  | insertMany conflict =>
    cases hplan
    exact paired_of_names h rfl fun _ => Schema.mem_names_of_encodeRecord hitem
  | insertRows =>
    cases first with
    | none => cases hplan
    | some first =>
      obtain ⟨columns, -, hplan⟩ := except_bind_eq_ok.mp hplan
      cases hplan
      obtain ⟨⟨⟩, hrow, hparams⟩ := except_bind_eq_ok.mp hitem
      refine paired_of_names h rfl fun name => ?_
      rw [names_of_encodeRow hparams]
      exact (mem_names_of_expectColumns hrow name).symm
  | updateMany columns predicate =>
    obtain ⟨ordered, -, hplan⟩ := except_bind_eq_ok.mp hplan
    obtain ⟨compared, hcompared, hplan⟩ := except_bind_eq_ok.mp hplan
    cases hplan
    obtain ⟨⟨⟩, hrow, hitem⟩ := except_bind_eq_ok.mp hitem
    obtain ⟨p, hp, hitem⟩ := except_bind_eq_ok.mp hitem
    obtain ⟨q, hq, hitem⟩ := except_bind_eq_ok.mp hitem
    cases hitem
    have hclause : compared.clause? = predicate.clause? := by
      cases predicate with
      | columns names =>
        obtain ⟨columns, -, rfl⟩ := except_map_eq_ok.mp hcompared
        rfl
      | _ =>
        cases hcompared
        rfl
    have hset : ∀ name, name ∈ p.names ↔ name ∈ ordered := by
      intro name
      rw [names_of_encodeRow hp]
      exact (mem_names_of_expectColumns hrow name).symm
    show Paired predicate.clause? statement (p.extend q)
    rw [← hclause]
    exact paired_of_names h rfl (names_of_update h hset (names_of_encodeCompared hq))

end BatchRequest

/-- An accepted operation asks an engine for one statement, with parameters that are paired with it:
the names that are bound are the placeholders of the text, each bound once. So are the parameters of
every item that an accepted operation for several items takes. -/
theorem bound_names_paired {σ ρ : Type} (t : Table ρ) (E : Interface σ) (earlier : List Shape) :
    (∀ (o : Operation ρ) (job : Job (σ × List Request) Unit), o.isSingle = true →
      (o.job t E.recorded (t.newCache.requested earlier)).1 = .ok job →
        ∃ statement : Statement, Job.Hands E statement.text (Paired o.clause? statement) job) ∧
    ∀ (ι : Type) (request : BatchRequest ρ ι) (items : List ι) (job : Job σ Nat),
      (request.operation t E items (t.newCache.requested earlier)).1 = .ok job →
        items = [] ∧ job = pure 0 ∨
        ∃ shape encode, ∃ statement : Statement,
          request.plan t (request.peeked items) = .ok (some (shape, encode)) ∧
          job = E.batch statement.text encode items ∧
          ∀ item params, encode item = .ok params → Paired request.clause? statement params := by
  refine ⟨fun o job ho h => Operation.exists_hands o ho h, fun ι request items job h => ?_⟩
  cases hplan : request.plan t (request.peeked items) with
  | error e =>
    rw [BatchRequest.operation_eq, hplan] at h
    cases h
  | ok planned =>
    cases planned with
    | none =>
      rw [BatchRequest.operation_eq, hplan] at h
      cases h
      exact .inl ⟨BatchRequest.items_of_unplanned hplan, rfl⟩
    | some planned =>
      obtain ⟨shape, encode⟩ := planned
      rw [BatchRequest.operation_of_plan hplan] at h
      obtain ⟨text, htext, rfl⟩ := except_map_eq_ok.mp h
      obtain ⟨statement, hstatement, rfl⟩ := Operation.exists_statement htext
      refine .inr ⟨shape, encode, statement, rfl, rfl, fun item params hitem => ?_⟩
      exact BatchRequest.paired_of_plan hplan hstatement hitem

open Example

/-- The last statement that an operation on the stored numbers runs, with the names that are
bound. -/
def lastAsked (o : Operation Int64) : Option (String × List String) :=
  (o.run numbers Connection.interface.recorded [] (numbersAt, [])).2.connection.2.getLast?.map
    fun r => (r.text, r.names)

/-- Numbers above a bound are counted, and updated. -/
theorem bound_names_paired_of_numbers :
    (∃ (statement : Statement) (params : Params),
      statement.text = "SELECT COUNT(*) FROM numbers WHERE id > :low" ∧
      params.names = ["low"] ∧ Paired (some "id > :low") statement params ∧
      Clause.openAfter none "id > :low".toList = none ∧ Clause.Legible statement.text) ∧
    ∃ (statement : Statement) (params : Params),
      numbers.encodeUpdate ["id"] (.raw "id > :low" ["low"])
        (oneInteger "id" 7, oneInteger "low" 1) = .ok params ∧
      Paired (some "id > :low") statement params := by
  have h := bound_names_paired numbers Connection.interface []
  constructor
  · have hasked : ((Operation.run numbers Connection.interface.recorded []
        (.count (.raw "id > :low" (oneInteger "low" 1))) (numbersAt, [])).2.connection.2).map
          (fun r => (r.text, r.names)) =
        [("SELECT COUNT(*) FROM numbers WHERE id > :low", []),
          ("SELECT COUNT(*) FROM numbers WHERE id > :low", ["low"])] := by decide +kernel
    obtain ⟨job, hjob⟩ :
        ∃ job, ((Operation.count (.raw "id > :low" (oneInteger "low" 1))).job numbers
        Connection.interface.recorded (numbers.newCache.requested [])).1 = .ok job := ⟨_, rfl⟩
    obtain ⟨statement, hands⟩ := h.1 _ job rfl hjob
    obtain ⟨runs, hlog, hpaired, -⟩ := hands numbersAt []
    rw [Operation.run, Building.runDirect_of_ok hjob, hlog] at hasked
    obtain ⟨htext, hruns⟩ := List.cons.inj hasked
    rcases runs with _ | ⟨params, runs⟩
    · cases hruns
    · obtain ⟨hparams, -⟩ := List.cons.inj hruns
      have hcount : statement.text = "SELECT COUNT(*) FROM numbers WHERE id > :low" :=
        (Prod.mk.inj htext).1
      refine ⟨statement, params, hcount, (Prod.mk.inj hparams).2,
        hpaired params List.mem_cons_self, rfl, ?_⟩
      rw [hcount]
      exact Clause.legible_of_ordinary (by rfl)
  · have hmany :=
      h.2 _ (.updateMany ["id"] (.raw "id > :low" ["low"]))
        [(oneInteger "id" 7, oneInteger "low" 1)]
    rcases hmany _ rfl with ⟨hnone, -⟩ | ⟨shape, encode, statement, hplan, -, hpaired⟩
    · cases hnone
    · cases hplan
      exact ⟨statement, _, rfl, hpaired (oneInteger "id" 7, oneInteger "low" 1) _ rfl⟩

/-- The engine reads no variable in a comment, where the scan finds one, and in a comment it does
not see the limit either. It reads a name with a letter beyond ASCII, which is none for the scan,
and takes NULL for it. -/
theorem bound_names_misread :
    lastAsked (.count (.raw "id > 0 -- :x" (oneInteger "x" 1))) =
        some ("SELECT COUNT(*) FROM numbers WHERE id > 0 -- :x", ["x"]) ∧
      Clause.variableTexts "SELECT COUNT(*) FROM numbers WHERE id > 0 -- :x" = [] ∧
      lastAsked (.selectOne (.raw "id > 0 --" .empty) .none) =
        some ("SELECT id FROM numbers WHERE id > 0 -- LIMIT :__limit", ["__limit"]) ∧
      Clause.variableTexts "SELECT id FROM numbers WHERE id > 0 -- LIMIT :__limit" = [] ∧
      lastAsked (.count (.raw "id = :é" .empty)) =
        some ("SELECT COUNT(*) FROM numbers WHERE id = :é", []) ∧
      Clause.variableTexts "SELECT COUNT(*) FROM numbers WHERE id = :é" = [":é"] := by
  decide +kernel

end TypedTables
