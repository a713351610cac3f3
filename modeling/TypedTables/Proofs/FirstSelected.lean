import TypedTables.Proofs.DeletedRows
import TypedTables.Proofs.PageQueries
import TypedTables.Proofs.ResultLists
import TypedTables.Proofs.SelectionLimits
import TypedTables.Proofs.StatementWords

/-!
# The first record of a selection

A selection of one record is the selection of all records with a limit of one, which takes the place
of a limit that was asked for. It finds the first of the records that would be handed out, unless
none were asked for: it looks for one all the same.
-/
namespace TypedTables

variable {σ ρ : Type}

/-! ### The limit behind a selection -/

/-- The tokens that stand between no parentheses. -/
def Engine.outermost : Nat → List Engine.Token → List Engine.Token
  | _, [] => []
  | depth, t :: ts =>
    if t.isSign "(" then outermost (depth + 1) ts
    else if t.isSign ")" then outermost (depth - 1) ts
    else if depth = 0 then t :: outermost 0 ts
    else outermost depth ts

open Engine (tokens outermost) in
/-- The limit of a selection, put behind a clause, is the limit of its query. -/
structure Clause.TakesLimit (clause : String) : Prop where
  /-- No comment or quote is open that what follows would be a part of. -/
  apart : (tokens (clause ++ limitText true)).map Engine.Token.text =
    (tokens clause).map Engine.Token.text ++ ["LIMIT", placeholder limitPlaceholder]
  /-- The statement does not end before. -/
  unended : ∀ t ∈ tokens clause, t.isSign ";" = false
  unlimited : ∀ t ∈ outermost 0 (tokens clause), t.isWord "LIMIT" = false
  /-- The last query of the statement selects: behind rows of values there is no limit. -/
  selects : ∀ t, ((outermost 0 (tokens clause)).filter fun t =>
    t.isWord "SELECT" || t.isWord "VALUES").getLast? = some t → t.isWord "VALUES" = false
  unnamed : ∀ t ∈ tokens clause, t.text ≠ placeholder limitPlaceholder
  /-- No character ends the text of a statement, and no byte order mark passes for a part of a
  word. -/
  plain : '\x00' ∉ clause.toList ∧ ∀ t ∈ tokens clause, t.text.toList.head? ≠ some '\uFEFF'

/-- A filter has no value with the name of the limit, and leaves the limit of a selection its
place. -/
def Filter.TakesLimit : Filter → Prop
  | .all => True
  | .eq row => limitPlaceholder ∉ row.names
  | .raw clause _ => Clause.TakesLimit (Text.trim clause)

/-- A limit stands behind the text of a selection, and changes nothing else about it. -/
theorem Schema.statementText_limited (s : Schema) (table : TableName)
    (projection : Projection) (distinct : Bool) (predicate : Predicate)
    (orderBy : List (String × Direction)) (limit : Bool) :
    s.statementText table (.select ⟨projection, distinct, predicate, orderBy, limit⟩) =
      (s.statementText table (.select ⟨projection, distinct, predicate, orderBy, false⟩)).map
        (· ++ limitText limit) := by
  simp only [statementText, Statement.ofShape]
  cases s.selected projection with
  | error e => rfl
  | ok selected =>
    cases s.condition [] predicate with
    | error e => rfl
    | ok condition =>
      simp only [except_ok_bind]
      cases orderBy.forM fun c => s.checkSortKey c.1 with
      | error e => rfl
      | ok u =>
        change Except.ok _ = Except.ok (_ ++ "" ++ limitText limit)
        rw [String.append_empty]
        rfl

namespace Table

variable {t : Table ρ} {f : Filter} {o : SelectOptions} {projection : Projection}

/-- What is built for a selection, whatever was asked for before. -/
theorem filtered_requested (earlier : List Shape) :
    (t.filtered projection f o (t.newCache.requested earlier)).1 =
      (f.compile t.schema "").bind fun compiled =>
        (t.schema.statementText t.name
          (.select ⟨projection, o.distinct, compiled.1, o.orderBy, o.limit.isSome⟩)).map
          (·, o.limited compiled.2) := by
  rw [filtered, stateful_bind]
  cases f.compile t.schema "" with
  | error e => rfl
  | ok compiled =>
    change (selection projection compiled.1 o compiled.2 (t.newCache.requested earlier)).1 =
      Except.map _ _
    rw [selection, stateful_bind, ← statement_requested t.schema t.name earlier]
    rcases hrequest :
      statement (.select ⟨projection, o.distinct, compiled.1, o.orderBy, o.limit.isSome⟩)
      (t.newCache.requested earlier) with ⟨r, c⟩
    rw [newCache] at hrequest
    rw [hrequest]
    cases r with
    | error e => rfl
    | ok text =>
      rw [SelectOptions.limited]
      cases o.limit <;> rfl

/-- A selection is the one without its limit, which stands behind the text and is one more
parameter. -/
theorem filtered_eq_unlimited (earlier later : List Shape) :
    (t.filtered projection f o (t.newCache.requested later)).1 =
      ((t.filtered projection f { o with limit := none } (t.newCache.requested earlier)).1).map
        fun built => (built.1 ++ limitText o.limit.isSome, o.limited built.2) := by
  rw [filtered_requested, filtered_requested]
  cases f.compile t.schema "" with
  | error e => rfl
  | ok compiled =>
    simp only [Except.bind, Option.isSome_none]
    rw [Schema.statementText_limited]
    cases t.schema.statementText t.name
      (.select ⟨projection, o.distinct, compiled.1, o.orderBy, false⟩) <;> rfl

/-- No parameter of a filter that takes a limit has the name of the limit. -/
theorem limit_not_mem_of_filtered {text : String} {params : Params}
    (h : (t.filtered projection f { o with limit := none } t.newCache).1 = .ok (text, params))
    (hf : f.TakesLimit) : limitPlaceholder ∉ params.names := by
  replace h := (filtered_requested []).symm.trans h
  obtain ⟨⟨predicate, q⟩, hcompiled, h⟩ := except_bind_eq_ok.mp h
  obtain ⟨text, htext, heq⟩ := except_map_eq_ok.mp h
  cases heq
  change limitPlaceholder ∉ q.names
  cases f with
  | all =>
    cases hcompiled
    exact List.not_mem_nil
  | eq row =>
    simp only [Filter.compile] at hcompiled
    split at hcompiled
    · cases hcompiled
    obtain ⟨columns, -, hcompiled⟩ := except_bind_eq_ok.mp hcompiled
    obtain ⟨q, hq, heq⟩ := except_bind_eq_ok.mp hcompiled
    cases heq
    rw [(Schema.encodeRow_spec hq).1]
    rw [Filter.TakesLimit] at hf
    simpa using hf
  | raw clause given =>
    cases hcompiled
    obtain ⟨statement, hstatement, -⟩ := except_map_eq_ok.mp htext
    obtain ⟨-, found, hpassed⟩ := passed_of_shape hstatement rfl
    rw [Params.names_ofRow]
    exact fun hmem => ne_limit_of_passed hpassed hmem rfl

end Table

/-! ### What is assumed of an engine -/

namespace Engine.Interface

variable {E : Interface σ} {text : String} {params : Params} {s : σ} {names : List String}
  {rows : List (List Stored)}

/-- A query is answered: these are the names of its columns, and these are its rows. -/
def Answers (E : Interface σ) (text : String) (params : Params) (s : σ) (names : List String)
    (rows : List (List Stored)) : Prop :=
  ∃ s₁ changes s₂, E.prepare text s = (.ok names, s₁) ∧
    E.run text params s₁ = (.ok ⟨rows, changes⟩, s₂)

/-- What is assumed of an engine about the query of a filter and a limit: the query is answered, and
with the limit behind it, if the filter lets it be one, so many of its rows are answered, from the
first one on. -/
structure Limits (E : Interface σ) (f : Filter) (text : String) (params : Params) (s : σ)
    (names : List String) (rows : List (List Stored)) : Prop where
  whole : E.Answers text params s names rows
  limited : f.TakesLimit → limitPlaceholder ∉ params.names → ∀ k : Int64, 0 ≤ k →
    E.Answers (text ++ limitText true) (params.push limitPlaceholder (.integer k)) s names
      (rows.take k.toInt.toNat)

/-- The rows of an answered query are handed out. -/
theorem Answers.rows_eq (h : E.Answers text params s names rows)
    (decode : List String → List Stored → Except Error ρ) (wants : Demand ρ) :
    (E.rows text params decode wants s).1 = handOut (decode names) wants [] rows := by
  obtain ⟨s₁, changes, s₂, hprepare, hrun⟩ := h
  rw [rows_of_run_ok hprepare hrun]

end Engine.Interface

/-! ### An engine that limits queries -/

namespace Engine

/-- An expression depends on the parameters that occur in it. -/
theorem Expr.eval_congr {params params' : String → Stored} {row : List Stored} {e : Expr Slot}
    (h : ∀ x ∈ e.parameters, params x = params' x) : e.eval params row = e.eval params' row := by
  induction e with
  | literal | column | senseless => rfl
  | parameter name => exact h name (List.mem_singleton_self name)
  | bare e ih | plus e ih => exact ih h
  | not e ih => rw [eval, eval, ih h]
  | call g e ih => rw [eval, eval, ih h]
  | and a b iha ihb | or a b iha ihb | compare op a b iha ihb | same a b iha ihb
  | arithmetic op a b iha ihb =>
    obtain ⟨ha, hb⟩ := List.forall_mem_append.mp h
    rw [eval, eval, iha ha, ihb hb]

namespace Query

variable {q : Query} {t : Option StoredTable} {params params' : String → Stored}

/-- The results of a query depend on the parameters that occur in it. -/
theorem results_congr (h : ∀ x ∈ (Plan.select q).parameters, params x = params' x) :
    q.results t params = q.results t params' := by
  have heval : ∀ e ∈ (Plan.select q).expressions, ∀ row, e.eval params row = e.eval params' row :=
    fun e he row => Expr.eval_congr fun x hx => h x (List.mem_flatMap.mpr ⟨e, he, hx⟩)
  simp only [Plan.expressions, List.forall_mem_append] at heval
  obtain ⟨⟨⟨houtputs, hcondition⟩, horder⟩, -⟩ := heval
  have hchosen : q.chosen t params = q.chosen t params' := by
    unfold chosen
    cases hq : q.condition with
    | none => rfl
    | some e =>
      refine List.filter_congr fun row _ => ?_
      rw [Expr.holds, Expr.holds, hcondition e (by simp [hq])]
  have hvalues :
      ∀ count row, valuesOf params q.outputs count row = valuesOf params' q.outputs count row := by
    intro count row
    refine List.map_congr_left fun o ho => ?_
    cases houtput : o.output with
    | count => rfl
    | value e => exact houtputs e (List.mem_filterMap.mpr ⟨o, ho, by rw [houtput]⟩) row
  have hkeys : ∀ row, q.orderBy.map (fun k => k.key.eval params row) =
      q.orderBy.map (fun k => k.key.eval params' row) :=
    fun row => List.map_congr_left fun k hk => horder _ (List.mem_map_of_mem hk) row
  simp only [results, hchosen, hvalues, hkeys]

def withLimit (q : Query) : Query :=
  { q with limit := some (.parameter (placeholder limitPlaceholder)) }

theorem parameters_withLimit (h : q.limit = none) :
    (Plan.select q.withLimit).parameters = (Plan.select q).parameters ++
      [placeholder limitPlaceholder] := by
  simp [Plan.parameters, Plan.expressions, withLimit, h, Expr.parameters]

/-- The limit is bound beside the other parameters. -/
theorem bind_withLimit {params : Params} {bound : String → Stored} (k : Int64) (h : q.limit = none)
    (hfree : ∀ x ∈ (Plan.select q).parameters, String.ofList (x.toList.drop 1) ≠ limitPlaceholder)
    (hbind : bind (.select q) params = .ok bound) :
    ∃ bound', bind (.select q.withLimit) (params.push limitPlaceholder (.integer k)) = .ok bound' ∧
      (∀ x ∈ (Plan.select q).parameters, bound' x = bound x) ∧
      bound' (placeholder limitPlaceholder) = .integer k := by
  unfold bind at hbind ⊢
  split at hbind
  · cases hbind
  next hknown =>
    cases hbind
    have hlimited : (params.push limitPlaceholder (.integer k)).names.find?
        (fun n => !(Plan.select q.withLimit).parameters.contains (":" ++ n)) = none := by
      rw [List.find?_eq_none] at hknown ⊢
      intro n hn
      rw [parameters_withLimit h]
      rcases (Params.mem_names_push _ _).mp hn with rfl | hn
      · simp [placeholder]
      · have hmem := hknown n hn
        simp only [Bool.not_eq_true', Bool.not_eq_false, List.contains_iff_mem] at hmem ⊢
        exact List.mem_append_left _ hmem
    rw [hlimited]
    refine ⟨_, rfl, fun x hx => ?_, ?_⟩
    · rw [Params.get?_push_of_ne _ (hfree x hx)]
    · have hname :
          String.ofList ((placeholder limitPlaceholder).toList.drop 1) = limitPlaceholder := by
        decide
      have hsign : (placeholder limitPlaceholder).startsWith ":" = true := by decide +kernel
      simp only [hname, Params.get?_push_self, hsign, if_true]

/-- With a limit the rows are those at the front. -/
theorem rows_withLimit {bound bound' : String → Stored} {k : Int64} (hk : 0 ≤ k)
    (hsame : ∀ x ∈ (Plan.select q).parameters, bound' x = bound x)
    (hlimit : bound' (placeholder limitPlaceholder) = .integer k) :
    q.withLimit.rows t bound' = .ok ((q.results t bound).take k.toInt.toNat) := by
  have hrows : q.withLimit.rows t bound' =
      limited (q.results t bound') (bound' (placeholder limitPlaceholder)) := rfl
  have hrowid : rowidOf? (.integer k) = some k := rfl
  rw [hrows, results_congr hsame, hlimit, limited, hrowid]
  dsimp only
  rw [if_neg (Int64.not_lt.mpr hk)]

end Query

/-- The engine answers a query and a limit as it is assumed, if a text is read as the query, and
with the limit behind it as the query with the limit. -/
theorem Connection.limits {c : Connection} {f : Filter} {text : String}
    {q : Query} {params : Params} {bound : String → Stored} (h : q.limit = none)
    (hwhole : c.plan text = .ok (.select q))
    (hlimited : c.plan (text ++ limitText true) = .ok (.select q.withLimit))
    (hfree : ∀ x ∈ (Plan.select q).parameters, String.ofList (x.toList.drop 1) ≠ limitPlaceholder)
    (hbind : bind (.select q) params = .ok bound) :
    Connection.interface.Limits f text params c (q.outputs.map NamedOutput.name)
      (q.results (q.source.bind c.catalog.table?) bound) where
  whole := by
    refine ⟨c, 0, c, congrArg (·, c) ?_, ?_⟩
    · rw [prepare, hwhole]
      rfl
    · refine (run_of_bind_ok hwhole hbind).trans ?_
      rw [execute, Query.rows, h]
      rfl
  limited _ _ k hk := by
    obtain ⟨bound', hbind', hsame, hlimit⟩ := Query.bind_withLimit k h hfree hbind
    refine ⟨c, 0, c, congrArg (·, c) ?_, ?_⟩
    · rw [prepare, hlimited]
      rfl
    · refine (run_of_bind_ok hlimited hbind').trans ?_
      rw [execute, Query.rows_withLimit hk hsame hlimit]
      rfl

end Engine

/-! ### The first record -/

/-- The items that the limit of a selection leaves: no limit is greater than the greatest
integer. -/
def SelectOptions.kept {α : Type} (o : SelectOptions) (items : List α) : List α :=
  match o.limit with
  | some n => items.take (min n.toNat (2 ^ 63 - 1))
  | .none => items

section Kept

variable {α : Type} {o : SelectOptions} {items : List α}

theorem kept_zero (h : o.limit = some 0) : o.kept items = [] := by
  rw [SelectOptions.kept, h]
  exact List.take_zero

/-- A limit that leaves anything leaves the first item. -/
theorem head?_kept (h : o.limit ≠ some 0) : (o.kept items).head? = items.head? := by
  rw [SelectOptions.kept]
  cases hlimit : o.limit with
  | none => rfl
  | some n =>
    have hne : n ≠ 0 := fun hn => h (by rw [hlimit, hn])
    have hpos : 0 < n.toNat := UInt64.lt_iff_toNat_lt.mp (UInt64.pos_iff_ne_zero.mpr hne)
    dsimp only
    rw [List.head?_take, if_neg (by omega)]

theorem mapM_kept {ε β : Type} {f : α → Except ε β} {results : List β}
    (h : items.mapM f = .ok results) : (o.kept items).mapM f = .ok (o.kept results) := by
  rw [SelectOptions.kept, SelectOptions.kept]
  cases o.limit with
  | none => exact h
  | some n => exact mapM_take h _

end Kept

/-- Whatever a consumer wants, it is handed the first row. -/
theorem head?_handOut {α : Type} {decode : α → Except Error ρ} {as : List α} {rows : List ρ}
    (h : as.mapM decode = .ok rows) (wants : Demand ρ) :
    (handOut decode wants [] as).rows.head? = rows.head? := by
  cases mapM_eq_ok_iff.mp h with
  | nil => rfl
  | @cons a r as rows hrow =>
    rw [handOut, hrow]
    dsimp only
    rw [List.nil_append]
    split
    · exact congrArg (fun e => e.rows.head?) (handOut_eq_append decode wants [r] [] as)
    · rfl

namespace Table

variable {t : Table ρ} {E : Engine.Interface σ} {f : Filter} {o : SelectOptions}

/-- The first record is that of a selection with a limit of one. -/
theorem selectOne_eq (c : StatementCache) :
    (t.selectOne E f o c).1 = (t.select E f { o with limit := some 1 } c).1.map firstOf := by
  rw [selectOne, select, stateful_bind, stateful_bind]
  rcases t.filtered (.columns .all) f { o with limit := some 1 } c with ⟨r, c'⟩
  cases r <;> rfl

/-- What is built for a selection of records. -/
theorem select_requested (earlier later : List Shape) :
    (t.select E f o (t.newCache.requested later)).1 =
      ((t.filtered (.columns .all) f { o with limit := none } (t.newCache.requested earlier)).1).map
        fun built => E.rows (built.1 ++ limitText o.limit.isSome) (o.limited built.2)
          (t.decodeRecords 0) := by
  have hfiltered : (t.filtered (.columns .all) f o (t.newCache.requested later)).1 = _ :=
    filtered_eq_unlimited earlier later
  rw [select, stateful_bind]
  rcases hrequest : t.filtered (.columns .all) f o (t.newCache.requested later) with ⟨r, c⟩
  rw [hrequest] at hfiltered
  obtain rfl : r = _ := hfiltered
  cases (t.filtered (.columns .all) f { o with limit := none } (t.newCache.requested earlier)).1 <;>
    rfl

/-- The rows that a selection asks for are those of its query that its limit leaves. -/
theorem answers_limited {text : String} {params : Params} {s : σ} {names : List String}
    {rows : List (List Stored)} (hE : E.Limits f text params s names rows) (hf : f.TakesLimit)
    (hfree : limitPlaceholder ∉ params.names) :
    E.Answers (text ++ limitText o.limit.isSome) (o.limited params) s names (o.kept rows) := by
  rw [SelectOptions.limited, SelectOptions.kept]
  cases o.limit with
  | none =>
    change E.Answers (text ++ "") params s names rows
    rw [String.append_empty]
    exact hE.whole
  | some n =>
    have hlimit :
        (Int64.ofNat (min n.toNat (2 ^ 63 - 1))).toInt = (min n.toNat (2 ^ 63 - 1) : Nat) :=
      Int64.toInt_ofNat_of_lt (by omega)
    have hanswers := hE.limited hf hfree (Int64.ofNat (min n.toNat (2 ^ 63 - 1)))
      (Int64.le_iff_toInt_le.mpr (by rw [hlimit, Int64.toInt_zero]; omega))
    rwa [hlimit, Int.toNat_natCast] at hanswers

/-- A consumer that wants one row gets the first one, if there is one. -/
theorem firstOf_eq {decode : List Stored → Except Error ρ} {job : RowJob σ ρ} {s : σ}
    {rows : List (List Stored)} {records : List ρ} (h : rows.mapM decode = .ok records)
    (hjob : (job (fun _ => false) s).1 = handOut decode (fun _ => false) [] (rows.take 1)) :
    (firstOf job s).1 = .ok records.head? := by
  have hfirst : (firstOf job s).1 =
      (job (fun _ => false) s).1.ending.toExcept.map fun _ =>
        (job (fun _ => false) s).1.rows.head? := rfl
  rw [hfirst, hjob]
  cases mapM_eq_ok_iff.mp h with
  | nil => rfl
  | cons hrow _ =>
    rw [List.take_succ_cons, List.take_zero, handOut, hrow]
    rfl

end Table

open Engine (Connection Query)
open Example

/-- The engine answers the numbers below three, with a limit or without. -/
theorem limits_numbers : Connection.interface.Limits (.raw "id < :top" (oneInteger "top" 3))
    "SELECT DISTINCT id FROM numbers WHERE id < :top" (.ofRow (oneInteger "top" 3)) numbersAt ["id"]
      [[.integer (-5)], [.integer 0]] := by
  let q : Query := {
    distinct := true
    outputs := [⟨"id", .value (.column ⟨0, .integer, .binary⟩)⟩]
    source := some ⟨0, "numbers"⟩
    condition := some (.compare .lt (.column ⟨0, .integer, .binary⟩) (.parameter ":top"))
    orderBy := []
    limit := none }
  have hwhole :
      numbersAt.plan "SELECT DISTINCT id FROM numbers WHERE id < :top" = .ok (.select q) := by
    decide +kernel
  have hlimited :
    numbersAt.plan ("SELECT DISTINCT id FROM numbers WHERE id < :top" ++ limitText true) =
      .ok (.select q.withLimit) := by decide +kernel
  have hplace : q.source.bind numbersAt.catalog.table? = some storedNumbers := by decide +kernel
  obtain ⟨bound, hbind, hresults⟩ :
      ∃ bound, Engine.bind (.select q) (.ofRow (oneInteger "top" 3)) = .ok bound ∧
      q.results (some storedNumbers) bound = [[.integer (-5)], [.integer 0]] :=
        ⟨_, rfl, by decide +kernel⟩
  have hlimits (f : Filter) :=
    Engine.Connection.limits (f := f) rfl hwhole hlimited (by decide) hbind
  rw [hplace, hresults] at hlimits
  exact hlimits _

/-- A selection of all records and a selection of one are refused alike, or else both are built.
Assume of the engine that with a limit behind it the query answers so many rows from its first one
on, if the filter lets the limit be one. If it does, and all rows can be read as records, the
selection of all hands out the records up to its limit, and the selection of one answers the first
record of the query. Unless the limit is zero this is the first record that is handed out, and there
is none exactly if nothing is handed out. -/
theorem select_one_first (t : Table ρ) (E : Engine.Interface σ) (f : Filter) (o : SelectOptions) :
    (∃ e, ∀ earlier, (t.select E f o (t.newCache.requested earlier)).1 = .error e ∧
      (t.selectOne E f o (t.newCache.requested earlier)).1 = .error e) ∨
    ∃ text params, (t.filtered (.columns .all) f { o with limit := none } t.newCache).1 =
      .ok (text, params) ∧
      (f.TakesLimit →
        ∀ s names rows records, E.Limits f text params s names rows →
          rows.mapM (t.decodeRecords 0 names) = .ok records →
          ∀ earlier later, ∃ yielded first,
            ((t.select E f o).collectDirect ⟨t.newCache.requested earlier, s⟩).1 = .ok yielded ∧
            (∀ wants, ∃ emitted,
              ((t.select E f o).handOutDirect wants ⟨t.newCache.requested earlier, s⟩).1 =
                .ok emitted ∧
                emitted.rows.head? = yielded.head?) ∧
            ((t.selectOne E f o).runDirect ⟨t.newCache.requested later, s⟩).1 = .ok first ∧
            yielded = o.kept records ∧ first = records.head? ∧
            (o.limit ≠ some 0 → first = yielded.head? ∧ (first = none ↔ yielded = [])) ∧
            (o.limit = some 0 → yielded = [])) := by
  cases hbuilt : (t.filtered (.columns .all) f { o with limit := none } t.newCache).1 with
  | error e =>
    refine .inl ⟨e, fun earlier => ?_⟩
    have hselect (limit : Option UInt64) :
        (t.select E f { o with limit } (t.newCache.requested earlier)).1 = .error e := by
      rw [Table.select_requested [] earlier]
      exact congrArg (Except.map _) hbuilt
    exact ⟨hselect o.limit, by rw [Table.selectOne_eq, hselect]; rfl⟩
  | ok built =>
    obtain ⟨text, params⟩ := built
    refine .inr ⟨text, params, rfl, fun hf s names rows records hE hrecords earlier later => ?_⟩
    have hfree := Table.limit_not_mem_of_filtered hbuilt hf
    have hselect (limit : Option UInt64) (requested : List Shape) :
        ∃ job, (t.select E f { o with limit } (t.newCache.requested requested)).1 = .ok job ∧
          ∀ wants, (job wants s).1 =
            handOut (t.decodeRecords 0 names) wants []
              (({ o with limit } : SelectOptions).kept rows) := by
      rw [Table.select_requested [] requested]
      refine ⟨_, congrArg (Except.map _) hbuilt, fun wants => ?_⟩
      exact (Table.answers_limited hE hf hfree).rows_eq _ wants
    obtain ⟨job, hjob, hemitted⟩ := hselect o.limit earlier
    have hcollected :
        ((t.select E f o).collectDirect ⟨t.newCache.requested earlier, s⟩).1 =
          .ok (o.kept records) := by
      rw [Building.collectDirect_of_ok hjob]
      exact (congrArg Emitted.collect (hemitted wantsAll)).trans
        ((collect_handOut_nil _ _).trans (mapM_kept hrecords))
    have hfirst :
        ((t.selectOne E f o).runDirect ⟨t.newCache.requested later, s⟩).1 = .ok records.head? := by
      obtain ⟨job, hjob, hemitted⟩ := hselect (some 1) later
      rw [Building.runDirect_of_ok
        ((Table.selectOne_eq _).trans (congrArg (Except.map Table.firstOf) hjob))]
      exact Table.firstOf_eq hrecords (hemitted _)
    refine ⟨_, _, hcollected, fun wants => ?_, hfirst, rfl, rfl, fun hlimit => ?_, kept_zero⟩
    · rw [Building.handOutDirect_of_ok hjob]
      refine ⟨_, rfl, ?_⟩
      exact (congrArg (fun e => e.rows.head?) (hemitted wants)).trans
        (head?_handOut (mapM_kept hrecords) wants)
    · have hsame : (o.kept records).head? = records.head? := head?_kept hlimit
      exact ⟨hsame.symm, by rw [← hsame, List.head?_eq_none_iff]⟩

theorem takesLimit_raw : (Filter.raw "id < :top" (oneInteger "top" 3)).TakesLimit where
  apart := by decide +kernel
  unended := by decide +kernel
  unlimited := by decide +kernel
  selects := by decide +kernel
  unnamed := by decide +kernel
  plain := by decide +kernel

/-- Of the numbers below three at most two are handed out, and the first of them is answered. -/
theorem select_one_first_numbers :
    ((numbers.select Connection.interface (.raw "id < :top" (oneInteger "top" 3))
        ⟨[], some 2, true⟩).collectDirect
        ⟨numbers.newCache.requested [], numbersAt⟩).1 = .ok [-5, 0] ∧
      ((numbers.selectOne Connection.interface (.raw "id < :top" (oneInteger "top" 3))
        ⟨[], some 2, true⟩).runDirect
        ⟨numbers.newCache.requested [], numbersAt⟩).1 = .ok (some (-5)) := by
  have hbuilt :
      (numbers.filtered (.columns .all) (.raw "id < :top" (oneInteger "top" 3)) ⟨[], none, true⟩
        numbers.newCache).1 =
      .ok ("SELECT DISTINCT id FROM numbers WHERE id < :top", .ofRow (oneInteger "top" 3)) := rfl
  rcases select_one_first numbers Connection.interface (.raw "id < :top" (oneInteger "top" 3))
    ⟨[], some 2, true⟩ with
    ⟨e, hrefused⟩ | ⟨text, params, htext, hselected⟩
  · cases (hrefused []).1
  · obtain ⟨rfl, rfl⟩ := Prod.mk.inj (Except.ok.inj (hbuilt.symm.trans htext))
    have hrecords :
        [[Stored.integer (-5)], [.integer 0]].mapM (numbers.decodeRecords 0 ["id"]) =
          .ok [-5, 0] := by
      decide +kernel
    obtain ⟨yielded, first, hyielded, -, hfirst, rfl, rfl, -⟩ :=
      hselected takesLimit_raw numbersAt _ _ _ limits_numbers hrecords [] []
    exact ⟨hyielded, hfirst⟩

/-- With a limit of zero no number is handed out, but the first one is answered. Behind a clause
that ends in a comment the numbers are handed out, but the limit of one is lost in the comment, and
its parameter unknown. -/
theorem select_one_despite_limit :
    numbers.type.schema = .ok numbers.schema ∧
    ((numbers.select Connection.interface .all ⟨[], some 0, false⟩).collectDirect
        ⟨numbers.newCache, numbersAt⟩).1 = .ok [] ∧
      ((numbers.selectOne Connection.interface .all ⟨[], some 0, false⟩).runDirect
        ⟨numbers.newCache, numbersAt⟩).1 = .ok (some (-5)) ∧
    ¬ Clause.TakesLimit "id < 5 --" ∧
    ((numbers.select Connection.interface (.raw "id < 5 --" .empty) ⟨[], none, false⟩).collectDirect
        ⟨numbers.newCache, numbersAt⟩).1 = .ok [-5, 0] ∧
      ((numbers.selectOne Connection.interface (.raw "id < 5 --" .empty)
        ⟨[], none, false⟩).runDirect ⟨numbers.newCache, numbersAt⟩).1 =
      .error (.refused "SELECT id FROM numbers WHERE id < 5 -- LIMIT :__limit"
        (.unknownParameter ":__limit")) := by
  have hopen : ¬ Clause.TakesLimit "id < 5 --" := fun h => absurd h.apart (by decide +kernel)
  exact ⟨rfl, by decide +kernel, by decide +kernel, hopen, by decide +kernel, by decide +kernel⟩

end TypedTables
