import Mathlib.Data.List.Sort
import TypedTables.Proofs.BatchesInTurn
import TypedTables.Proofs.BatchRequests
import TypedTables.Proofs.ClauseVariables
import TypedTables.Proofs.UpdateSides

/-!
# Many updates and single ones

A request for many updates has a predicate, and each of its items has values to compare with. A
filter is both at once. The request puts its statement and the parameters of an item together on its
own, but they are those of the update with the filter that the predicate and the values of the item
make. So a request that succeeds does what these updates do one after the other in a transaction,
and what they do each by itself unless a constraint is violated between them that is checked at the
end of a transaction.
-/
namespace TypedTables

/-- The filter that a predicate makes of the values to compare with. -/
def Predicate.filter (predicate : Predicate) (compared : Row) : Filter :=
  match predicate with
  | .all => .all
  | .columns _ => .eq compared
  | .raw clause _ => .raw clause compared

def Predicate.names : Predicate → List String
  | .all => []
  | .columns names => names
  | .raw _ names => names

/-- A row has values for certain names and for no others. -/
def Row.HasNames (row : Row) (names : List String) : Prop := ∀ name, name ∈ names ↔ name ∈ row.names

/-- Every value of a row has a stored form, as a value of the column that it is named for. -/
def Schema.Encodable (s : Schema) (row : Row) : Prop :=
  ∀ name v, row.get? name = some v → ∃ stored, s.stored name v = .ok stored

/-- A pair of values to set and values to compare with suits a request: each side has the names that
the request says, and the values of columns have a stored form. The values for a clause belong to no
column. -/
structure Table.Suits {ρ : Type} (t : Table ρ) (columns : List String) (predicate : Predicate)
    (pair : Row × Row) : Prop where
  set_names : pair.1.HasNames columns
  set_encodable : t.schema.Encodable pair.1
  compared_names : pair.2.HasNames predicate.names
  compared_encodable : predicate.isRaw = false → t.schema.Encodable pair.2

/-- Runs the updates of single pairs one after the other; answers how many rows they changed. -/
def Table.updateEach {σ ρ : Type} (t : Table ρ) (E : Engine.Interface σ) (predicate : Predicate) :
    List (Row × Row) → ExceptT Error (StateM (Session σ)) Nat
  | [] => return 0
  | pair :: pairs => do
    let n ← (t.update E pair.1 (predicate.filter pair.2) none).runDirect
    let m ← t.updateEach E predicate pairs
    return n + m

/-- What an accepted request for many updates runs, beside the updates of the single pairs. A pair
that suits has the statement and the parameters of its update, any other pair stops the request. If
the request succeeds, the updates of its pairs do too in a transaction of their own, with the same
number of changed rows and the same end. Each by itself they do if the transaction could have been
committed behind every pair, and one of them is refused if not. -/
structure Table.UpdatesPairs {σ ρ D : Type} (t : Table ρ) (E : Engine.Interface σ) (db : σ → D)
    (columns : List String) (predicate : Predicate) (pairs : List (Row × Row)) (job : Job σ Nat)
    (text : String) (encode : Row × Row → Except Error Params) : Prop where
  batch : job = E.batch text encode pairs
  suited : ∀ pair, t.Suits columns predicate pair → ∃ params, encode pair = .ok params ∧
    ∀ earlier, (t.update E pair.1 (predicate.filter pair.2) none (t.newCache.requested earlier)).1 =
      .ok (E.change text params)
  unsuited : ∀ pair, ¬ t.Suits columns predicate pair → ∃ e, encode pair = .error e
  stops : ∀ {s s₁ s₂ before pair after n}, pairs = before ++ pair :: after → E.Started text s s₁ →
    Engine.Interface.Ran E text encode s₁ before n s₂ → ¬ t.Suits columns predicate pair →
      ∃ e, encode pair = .error e ∧ job s = (.error e, E.undone s₂)
  together : ∀ {s s' n}, job s = (.ok n, s') → (∀ pair ∈ pairs, t.Suits columns predicate pair) ∧
    ∀ earlier, ∃ s₀ later r₁ r₂, E.control "BEGIN DEFERRED" s = (.ok (), s₀) ∧
      t.updateEach E predicate pairs ⟨t.newCache.requested earlier, s₀⟩ =
        (.ok n, ⟨t.newCache.requested later, r₁⟩) ∧
      E.control "COMMIT" r₁ = (.ok (), r₂) ∧ db r₂ = db s'
  alone : ∀ {s s' n}, job s = (.ok n, s') → ∃ s₁, E.Started text s s₁ ∧ ∀ earlier,
    (E.Throughout text encode E.Commits s₁ pairs → ∃ later s'', db s'' = db s' ∧
      t.updateEach E predicate pairs ⟨t.newCache.requested earlier, s⟩ =
        (.ok n, ⟨t.newCache.requested later, s''⟩)) ∧
    (¬ E.Throughout text encode E.Commits s₁ pairs → ∃ e after,
      t.updateEach E predicate pairs ⟨t.newCache.requested earlier, s⟩ = (.error e, after))

/-! ### Names -/

/-- Maps that have the same names have them in the same order. -/
theorem Keyed.names_eq_of_mem_iff {α β : Type} {m : Keyed α} {n : Keyed β}
    (h : ∀ name, name ∈ m.names ↔ name ∈ n.names) : m.names = n.names := by
  have hsorted : ∀ {γ : Type} (k : Keyed γ), k.names.Pairwise (· < ·) := by
    intro γ k
    rw [names, List.pairwise_map]
    exact k.increasing
  exact (hsorted m).eq_of_mem_iff (hsorted n) h

theorem Keyed.isEmpty_of_mem_names {α : Type} {m : Keyed α} {name : String} (h : name ∈ m.names) :
    m.isEmpty = false := by
  obtain ⟨e, he, -⟩ := List.mem_map.mp h
  exact List.isEmpty_eq_false_iff_exists_mem.mpr ⟨e, he⟩

theorem expectColumns_eq_ok {row : Row} {columns : List String} {what : String} :
    Table.expectColumns row columns what = .ok () ↔ row.HasNames columns := by
  refine ⟨fun h => mem_names_of_expectColumns h, fun h => ?_⟩
  rw [Table.expectColumns]
  refine if_pos (Keyed.names_eq_of_mem_iff fun name => ?_)
  rw [Keyed.mem_names_ofList, List.map_map, ← h name]
  simp

theorem contains_congr {as bs : List String} (h : ∀ name, name ∈ as ↔ name ∈ bs) :
    as.contains = bs.contains := by
  funext name
  rw [Bool.eq_iff_iff, List.contains_iff_mem, List.contains_iff_mem]
  exact h name

namespace Schema

variable {s : Schema} {row : Row}

/-- Which columns are put in order does not depend on how they are listed. -/
theorem ordered_congr {as bs columns : List String} (h : ∀ name, name ∈ as ↔ name ∈ bs)
    (has : s.ordered as = .ok columns) : s.ordered bs = .ok columns := by
  obtain ⟨hall, rfl⟩ := ordered_eq_ok.mp has
  exact ordered_eq_ok.mpr ⟨fun name hm => hall name ((h name).mpr hm), by rw [contains_congr h]⟩

/-- The rows that can be encoded, whatever the mark. -/
theorem encodable_iff (mark : String) :
    s.Encodable row ↔ ∃ params, s.encodeRow row mark = .ok params := by
  constructor
  · exact exists_encodeRow
  · rintro ⟨params, hparams⟩ name v hv
    obtain ⟨stored, hstored, -⟩ := (encodeRow_spec hparams).2 name v hv
    exact ⟨stored, hstored⟩

end Schema

/-! ### The statement of a clause -/

/-- Whether a clause is accepted does not depend on how its parameters are listed. -/
theorem Clause.check_congr {clause : String} {declared declared' set : List String}
    (hnames : ∀ name, name ∈ declared ↔ name ∈ declared') (h : check clause declared set = .ok ()) :
    check clause declared' set = .ok () := by
  obtain ⟨⟨⟩, hdeclared, h⟩ := except_bind_eq_ok.mp h
  obtain ⟨referenced, hreferenced, h⟩ := except_bind_eq_ok.mp h
  obtain ⟨⟨⟩, hall, h⟩ := except_bind_eq_ok.mp h
  have hsame : checkReferenced declared set = checkReferenced declared' set := by
    funext name
    rw [checkReferenced, checkReferenced, contains_congr hnames]
  refine except_bind_eq_ok.mpr ⟨(), ?_, except_bind_eq_ok.mpr ⟨referenced, hreferenced, ?_⟩⟩
  · exact forM_eq_ok_of_forall fun name hm => forM_eq_ok hdeclared name ((hnames name).mpr hm)
  · refine except_bind_eq_ok.mpr ⟨(), hsame ▸ hall, ?_⟩
    have hused : declared'.find? (!referenced.contains ·) = none := by
      refine List.find?_eq_none.mpr fun name hm => ?_
      split at h
      · cases h
      next hnone => exact List.find?_eq_none.mp hnone name ((hnames name).mpr hm)
    rw [hused]

namespace Schema

variable {s : Schema} {table : TableName}

theorem condition_raw_congr {set names names' : List String} {clause : String}
    {condition : Condition} (hnames : ∀ name, name ∈ names ↔ name ∈ names')
    (h : s.condition set (.raw clause names) = .ok condition) :
    s.condition set (.raw clause names') = .ok condition := by
  simp only [Schema.condition] at h ⊢
  split at h
  · cases h
  next hclause =>
    rw [if_neg hclause]
    obtain ⟨⟨⟩, hcheck, h⟩ := except_bind_eq_ok.mp h
    have hcheck' := Clause.check_congr hnames (except_mapError_eq_ok.mp hcheck)
    exact except_bind_eq_ok.mpr ⟨(), except_mapError_eq_ok.mpr hcheck', h⟩

/-- An accepted condition on columns compares at least one. -/
theorem exists_column_of_condition {set names : List String} {condition : Condition}
    (h : s.condition set (.columns names) = .ok condition) : ∃ name, name ∈ names := by
  obtain ⟨columns, hcolumns, h⟩ := except_bind_eq_ok.mp h
  split at h
  · cases h
  next hnonempty =>
    obtain ⟨name, hname⟩ :=
      List.isEmpty_eq_false_iff_exists_mem.mp (Bool.eq_false_iff.mpr hnonempty)
    exact ⟨name, (mem_ordered_iff hcolumns).mp hname⟩

/-- The text of an update says which columns are set and what the condition is. -/
theorem updateText_eq_ok {columns : List String} {predicate : Predicate}
    {conflict : Option Conflict} {text : String} :
      s.statementText table (.update ⟨columns, predicate, conflict⟩) = .ok text ↔
      ∃ set condition, s.ordered columns = .ok set ∧ set.isEmpty = false ∧
        s.condition set predicate = .ok condition ∧
          (Statement.update table set conflict condition).text = text := by
  rw [statementText, except_map_eq_ok]
  constructor
  · rintro ⟨statement, hstatement, htext⟩
    obtain ⟨set, hset, h⟩ := except_bind_eq_ok.mp hstatement
    split at h
    · cases h
    next hnonempty =>
      obtain ⟨condition, hcondition, h⟩ := except_bind_eq_ok.mp h
      cases h
      exact ⟨set, condition, hset, Bool.eq_false_iff.mpr hnonempty, hcondition, htext⟩
  · rintro ⟨set, condition, hset, hnonempty, hcondition, htext⟩
    refine ⟨_, except_bind_eq_ok.mpr ⟨set, hset, ?_⟩, htext⟩
    rw [hnonempty, if_neg Bool.false_ne_true]
    exact except_bind_eq_ok.mpr ⟨condition, hcondition, rfl⟩

end Schema

/-! ### One pair -/

theorem StatementCache.requested_concat (c : StatementCache) (shapes : List Shape) (shape : Shape) :
    c.requested (shapes ++ [shape]) = ((c.requested shapes).get shape).2 := by
  rw [requested, List.foldl_append]
  rfl

namespace Table

variable {σ ρ : Type} {t : Table ρ} {columns cs : List String} {predicate asked : Predicate}
  {pair : Row × Row}

/-- The values to compare with become the same parameters in a request for many updates and in a
filter, and the condition of the filter is that of the predicate. -/
theorem encodeCompared_filter (hasked : t.orderedPredicate predicate = .ok asked)
    {condition : Condition} (hcondition : t.schema.condition cs asked = .ok condition)
    {compared : Row} (hnames : compared.HasNames predicate.names)
    (hencodable : predicate.isRaw = false → t.schema.Encodable compared) :
    ∃ params compiled, t.encodeCompared asked compared = .ok params ∧
      (predicate.filter compared).compile t.schema whereMark = .ok (compiled, params) ∧
      t.schema.condition cs compiled = .ok condition := by
  cases predicate with
  | all =>
    cases hasked
    refine ⟨.empty, .all, ?_, rfl, hcondition⟩
    exact except_bind_eq_ok.mpr ⟨(), expectColumns_eq_ok.mpr hnames, rfl⟩
  | columns names =>
    obtain ⟨ds, hds, rfl⟩ := except_map_eq_ok.mp hasked
    obtain ⟨params, hparams⟩ := (Schema.encodable_iff whereMark).mp (hencodable rfl)
    have hexpected : compared.HasNames ds :=
      fun name => (Schema.mem_ordered_iff hds).trans (hnames name)
    have hordered : t.schema.orderedNames compared = .ok ds := Schema.ordered_congr hnames hds
    -- A filter by an empty row is refused; here a column is compared, or there would be no
    -- condition.
    have hrow : compared.isEmpty = false := by
      obtain ⟨name, hname⟩ := Schema.exists_column_of_condition hcondition
      exact Keyed.isEmpty_of_mem_names ((hexpected name).mp hname)
    refine ⟨params, .columns ds, ?_, ?_, hcondition⟩
    · exact except_bind_eq_ok.mpr ⟨(), expectColumns_eq_ok.mpr hexpected, hparams⟩
    · rw [Predicate.filter, Filter.compile, hrow, if_neg Bool.false_ne_true]
      exact except_bind_eq_ok.mpr ⟨ds, hordered, except_bind_eq_ok.mpr ⟨params, hparams, rfl⟩⟩
  | raw clause names =>
    cases hasked
    refine ⟨.ofRow compared, .raw clause compared.names, ?_, rfl, ?_⟩
    · exact except_bind_eq_ok.mpr ⟨(), expectColumns_eq_ok.mpr hnames, rfl⟩
    · exact Schema.condition_raw_congr hnames hcondition

/-- Values to compare with that are encoded are named as the predicate says. -/
theorem suits_of_encodeCompared (hasked : t.orderedPredicate predicate = .ok asked) {compared : Row}
    {params : Params} (h : t.encodeCompared asked compared = .ok params) :
    compared.HasNames predicate.names ∧
    (predicate.isRaw = false → t.schema.Encodable compared) := by
  cases predicate with
  | all =>
    cases hasked
    obtain ⟨⟨⟩, hexpected, -⟩ := except_bind_eq_ok.mp h
    have hnames := expectColumns_eq_ok.mp hexpected
    refine ⟨hnames, fun _ name v hv => ?_⟩
    have hname := (hnames name).mpr (compared.mem_names_iff.mpr ⟨v, hv⟩)
    cases hname
  | columns names =>
    obtain ⟨ds, hds, rfl⟩ := except_map_eq_ok.mp hasked
    obtain ⟨⟨⟩, hexpected, hparams⟩ := except_bind_eq_ok.mp h
    have hnames := expectColumns_eq_ok.mp hexpected
    refine ⟨fun name => (Schema.mem_ordered_iff hds).symm.trans (hnames name), fun _ => ?_⟩
    exact (Schema.encodable_iff whereMark).mpr ⟨params, hparams⟩
  | raw clause names =>
    cases hasked
    obtain ⟨⟨⟩, hexpected, -⟩ := except_bind_eq_ok.mp h
    exact ⟨expectColumns_eq_ok.mp hexpected, fun hraw => Bool.noConfusion hraw⟩

/-- A pair that is encoded suits the request. -/
theorem suits_of_encodeUpdate (hcs : t.schema.ordered columns = .ok cs)
    (hasked : t.orderedPredicate predicate = .ok asked) {params : Params}
    (h : t.encodeUpdate cs asked pair = .ok params) : t.Suits columns predicate pair := by
  simp only [encodeUpdate, except_bind_eq_ok] at h
  obtain ⟨⟨⟩, hset, p, hp, q, hq, -⟩ := h
  obtain ⟨hnames, hencodable⟩ := suits_of_encodeCompared hasked hq
  refine ⟨fun name => ?_, (Schema.encodable_iff "").mpr ⟨p, hp⟩, hnames, hencodable⟩
  exact (Schema.mem_ordered_iff hcs).symm.trans (expectColumns_eq_ok.mp hset name)

/-- A pair that suits is encoded as its update is, and the update has the statement of the
request. -/
theorem encodeUpdate_of_suits (E : Engine.Interface σ) (hcs : t.schema.ordered columns = .ok cs)
    (hasked : t.orderedPredicate predicate = .ok asked) {text : String}
    (htext : t.schema.statementText t.name (.update ⟨cs, asked, none⟩) = .ok text)
    (h : t.Suits columns predicate pair) :
    ∃ params, t.encodeUpdate cs asked pair = .ok params ∧
      ∀ earlier, (t.update E pair.1 (predicate.filter pair.2) none
        (t.newCache.requested earlier)).1 =
        .ok (E.change text params) := by
  obtain ⟨set, condition, hset, hnonempty, hcondition, rfl⟩ := Schema.updateText_eq_ok.mp htext
  obtain rfl : cs = set := Except.ok.inj ((Schema.ordered_ordered hcs).symm.trans hset)
  obtain ⟨p, hp⟩ := (Schema.encodable_iff "").mp h.set_encodable
  obtain ⟨q, compiled, hq, hcompiled, hcondition'⟩ :=
    encodeCompared_filter hasked hcondition h.compared_names h.compared_encodable
  have hexpected : pair.1.HasNames cs :=
    fun name => (Schema.mem_ordered_iff hcs).trans (h.set_names name)
  refine ⟨p.extend q, ?_, fun earlier => ?_⟩
  · simp only [encodeUpdate, except_bind_eq_ok]
    exact ⟨(), expectColumns_eq_ok.mpr hexpected, p, hp, q, hq, rfl⟩
  · have hordered : t.schema.orderedNames pair.1 = .ok cs := Schema.ordered_congr h.set_names hcs
    have hsame : t.schema.statementText t.name (.update ⟨cs, compiled, none⟩) =
        .ok (Statement.update t.name cs none condition).text :=
      Schema.updateText_eq_ok.mpr ⟨cs, condition, hset, hnonempty, hcondition', rfl⟩
    simp only [update, building_bind_eq_ok, checked_apply, building_pure, Except.ok.injEq]
    refine ⟨cs, hordered, (compiled, q), hcompiled, _, ?_, p, hp, rfl⟩
    rw [newCache, statement_requested]
    exact hsame

/-! ### All pairs -/

theorem building_bind_of_ok {α β : Type} {x : Building α} {f : α → Building β}
    {c : StatementCache} {a : α} (h : (x c).1 = .ok a) : (x >>= f) c = f a (x c).2 := by
  rw [stateful_bind]
  rcases hx : x c with ⟨r, c'⟩
  rw [hx] at h
  cases h
  rfl

/-- Building an update asks for one statement. -/
theorem exists_request_of_update {E : Engine.Interface σ} {set : Row} {f : Filter}
    {conflict : Option Conflict} {earlier : List Shape} {job : Job σ Nat}
    (h : (t.update E set f conflict (t.newCache.requested earlier)).1 = .ok job) :
    ∃ shape, (t.update E set f conflict (t.newCache.requested earlier)).2 =
      t.newCache.requested (earlier ++ [shape]) := by
  simp only [update, building_bind_eq_ok, checked_apply] at h
  obtain ⟨columns, hcolumns, ⟨predicate, q⟩, hf, text, htext, p, hp, -⟩ := h
  refine ⟨.update ⟨columns, predicate, conflict⟩, ?_⟩
  rw [update, building_bind_of_ok hcolumns, checked_apply, building_bind_of_ok hf, checked_apply]
  dsimp only
  rw [building_bind_of_ok htext, building_bind_of_ok hp, StatementCache.requested_concat]
  rfl

variable {D : Type} {E : Engine.Interface σ} {db : σ → D} {text : String}
  {encode : Row × Row → Except Error Params}

/-- The updates of a single pair and of the pairs behind it. -/
theorem updateEach_cons_of_ok {pair : Row × Row} {pairs : List (Row × Row)}
    {params : Params} {n : Nat} {earlier : List Shape} {r r₁ : σ}
    (hbuilt : (t.update E pair.1 (predicate.filter pair.2) none (t.newCache.requested earlier)).1 =
      .ok (E.change text params))
    (hchange : E.change text params r = (.ok n, r₁)) :
    ∃ shape, t.updateEach E predicate (pair :: pairs) ⟨t.newCache.requested earlier, r⟩ =
      match t.updateEach E predicate pairs ⟨t.newCache.requested (earlier ++ [shape]), r₁⟩ with
      | (.ok m, after) => (.ok (n + m), after)
      | (.error e, after) => (.error e, after) := by
  obtain ⟨shape, hshape⟩ := exists_request_of_update hbuilt
  refine ⟨shape, ?_⟩
  rw [updateEach, stateful_bind, Building.runDirect_of_ok hbuilt, hshape, hchange]
  dsimp only
  rw [stateful_bind]
  rcases t.updateEach E predicate pairs ⟨t.newCache.requested (earlier ++ [shape]), r₁⟩ with
    ⟨m, after⟩
  cases m <;> rfl

theorem updateEach_cons_of_error {pair : Row × Row} {pairs : List (Row × Row)} {params : Params}
    {e : Error} {earlier : List Shape} {r r₁ : σ}
    (hbuilt : (t.update E pair.1 (predicate.filter pair.2) none (t.newCache.requested earlier)).1 =
      .ok (E.change text params))
    (hchange : E.change text params r = (.error e, r₁)) :
    ∃ after, t.updateEach E predicate (pair :: pairs) ⟨t.newCache.requested earlier, r⟩ =
      (.error e, after) := by
  have herror :
      (t.updateEach E predicate (pair :: pairs) ⟨t.newCache.requested earlier, r⟩).1 =
        .error e := by
    rw [updateEach, stateful_bind, Building.runDirect_of_ok hbuilt, hchange]
  exact ⟨_, Prod.ext herror rfl⟩

section Ran

variable
  (hupdate : ∀ pair params, encode pair = .ok params → ∀ earlier,
    (t.update E pair.1 (predicate.filter pair.2) none (t.newCache.requested earlier)).1 =
      .ok (E.change text params))
include hupdate

/-- If items ran in a batch, then the updates of the pairs succeed from a state that is related to
that of the batch, provided that one change does and leads to related states again. The induction is
on the items that ran; `K` holds behind each of them. -/
theorem updateEach_of_ran {Q : σ → σ → Prop} {K : σ → Prop}
    (hchange : ∀ {s s' r params answer}, E.running text params s = (.ok answer, s') → K s' → Q s r →
      ∃ r', E.change text params r = (.ok answer.changes, r') ∧ Q s' r')
    {s s' : σ} {pairs : List (Row × Row)} {n : Nat}
    (h : Engine.Interface.Ran E text encode s pairs n s') (hK : E.Throughout text encode K s pairs)
    {r : σ} (hr : Q s r) (earlier : List Shape) :
    ∃ later r', Q s' r' ∧ t.updateEach E predicate pairs ⟨t.newCache.requested earlier, r⟩ =
      (.ok n, ⟨t.newCache.requested later, r'⟩) := by
  induction h generalizing r earlier with
  | nil s => exact ⟨earlier, r, hr, rfl⟩
  | @cons s s₁ s₂ pair pairs params answer m hencode hrun _ ih =>
    obtain ⟨hfirst, hrest⟩ := (Engine.Interface.throughout_cons hencode hrun).mp hK
    obtain ⟨r₁, hdone, hr₁⟩ := hchange hrun hfirst hr
    obtain ⟨shape, heach⟩ := updateEach_cons_of_ok (hupdate pair params hencode earlier) hdone
    obtain ⟨later, r', hr', hothers⟩ := ih hrest hr₁ (earlier ++ [shape])
    refine ⟨later, r', hr', ?_⟩
    rw [heach, hothers]

/-- If the transaction of a batch could not have been committed behind some item, then one of the
updates is refused where each is a transaction by itself. -/
theorem updateEach_refused (hE : E.Autocommits db text) {s s' : σ}
    {pairs : List (Row × Row)} {n : Nat} (h : Engine.Interface.Ran E text encode s pairs n s')
    (hs : E.inTransaction s = true) (hK : ¬ E.Throughout text encode E.Commits s pairs) {r : σ}
    (hr : E.inTransaction r = false) (hdb : db r = db s) (earlier : List Shape) :
    ∃ e after, t.updateEach E predicate pairs ⟨t.newCache.requested earlier, r⟩ =
      (.error e, after) := by
  induction h generalizing r earlier with
  | nil s =>
    refine absurd (fun before after n s' heq hne _ => ?_) hK
    exact absurd (List.append_eq_nil_iff.mp heq.symm).1 hne
  | @cons s s₁ s₂ pair pairs params answer m hencode hrun _ ih =>
    have hbuilt := hupdate pair params hencode earlier
    by_cases hcommits : E.Commits s₁
    · obtain ⟨r₁, hdone, hdb₁, hr₁⟩ := hE.change_alone hs hrun hcommits hr hdb
      obtain ⟨shape, heach⟩ := updateEach_cons_of_ok hbuilt hdone
      have hopen := hE.open_of_running hs hrun
      have hrest : ¬ E.Throughout text encode E.Commits s₁ pairs := fun hrest =>
        hK ((Engine.Interface.throughout_cons hencode hrun).mpr ⟨hcommits, hrest⟩)
      obtain ⟨e, after, hothers⟩ := ih hopen hrest hr₁ hdb₁ (earlier ++ [shape])
      exact ⟨e, after, by rw [heach, hothers]⟩
    · obtain ⟨e, r₁, hrefused⟩ := hE.change_refused hs hrun hcommits hr hdb
      exact ⟨e, updateEach_cons_of_error hbuilt hrefused⟩

end Ran

/-- The parts of an accepted request for many updates. -/
theorem exists_of_updateMany {earlier : List Shape} {pairs : List (Row × Row)} {job : Job σ Nat}
    (h : (t.updateMany E columns predicate pairs (t.newCache.requested earlier)).1 = .ok job) :
    ∃ cs asked text, t.schema.ordered columns = .ok cs ∧ t.orderedPredicate predicate = .ok asked ∧
      t.schema.statementText t.name (.update ⟨cs, asked, none⟩) = .ok text ∧
        job = E.batch text (t.encodeUpdate cs asked) pairs := by
  simp only [updateMany, building_bind_eq_ok, checked_apply, building_pure, Except.ok.injEq] at h
  obtain ⟨cs, hcs, asked, hasked, text, htext, rfl⟩ := h
  rw [newCache, statement_requested] at htext
  exact ⟨cs, asked, text, hcs, hasked, htext, rfl⟩

end Table

/-- An accepted request for many updates is the updates of its pairs, run in one transaction. It
refuses exactly the pairs whose names differ from those that the request says or of which a value
cannot be encoded; for any other pair it runs the statement and the parameters of the update. If it
succeeds, these updates, one after the other in a transaction, change as many rows and lead to the
same end. Each in a transaction by itself they do so if a COMMIT would have been accepted behind
every pair of the request, and otherwise one of them is refused. -/
theorem updateMany_updates_pairs {σ ρ D : Type} {t : Table ρ} {E : Engine.Interface σ} {db : σ → D}
    (hE : ∀ shape text, shape.changesRows = true → t.schema.statementText t.name shape = .ok text →
      E.Autocommits db text)
    {columns : List String} {predicate : Predicate} {pairs : List (Row × Row)}
    {earlier : List Shape} {job : Job σ Nat}
    (h : (t.updateMany E columns predicate pairs (t.newCache.requested earlier)).1 = .ok job) :
    ∃ text encode, t.UpdatesPairs E db columns predicate pairs job text encode := by
  obtain ⟨cs, asked, text, hcs, hasked, htext, rfl⟩ := Table.exists_of_updateMany h
  have hauto : E.Autocommits db text := hE _ text rfl htext
  have hunsuited : ∀ pair, ¬ t.Suits columns predicate pair → ∃ e,
      t.encodeUpdate cs asked pair = .error e := by
    intro pair hpair
    cases hencode : t.encodeUpdate cs asked pair with
    | ok params => exact absurd (Table.suits_of_encodeUpdate hcs hasked hencode) hpair
    | error e => exact ⟨e, rfl⟩
  have hupdate : ∀ pair params, t.encodeUpdate cs asked pair = .ok params → ∀ earlier,
      (t.update E pair.1 (predicate.filter pair.2) none (t.newCache.requested earlier)).1 =
        .ok (E.change text params) := by
    intro pair params hencode
    have hsuits := Table.suits_of_encodeUpdate hcs hasked hencode
    obtain ⟨_, hparams, hbuilt⟩ := Table.encodeUpdate_of_suits E hcs hasked htext hsuits
    rw [hencode, Except.ok.injEq] at hparams
    exact hparams ▸ hbuilt
  refine ⟨text, t.encodeUpdate cs asked, rfl,
    fun pair => Table.encodeUpdate_of_suits E hcs hasked htext, hunsuited, ?_, ?_, ?_⟩
  · rintro s s₁ s₂ before pair after n rfl hstarted hran hpair
    obtain ⟨e, hencode⟩ := hunsuited pair hpair
    refine ⟨e, hencode, ?_⟩
    rw [List.append_cons]
    exact Engine.Interface.batch_of_stopped hstarted (hran.stopped hencode) after
  · intro s s' n hjob
    obtain ⟨s₁, s₂, hstarted, hran, hcommit⟩ := Engine.Interface.ran_of_batch hjob
    obtain ⟨s₀, hbegin, -, ⟨hdb₀, hopen₀⟩, hdb₁, hopen₁⟩ := hauto.started hstarted
    refine ⟨fun pair hpair => ?_, fun earlier => ?_⟩
    · obtain ⟨params, hencode⟩ := hran.encoded pair hpair
      exact Table.suits_of_encodeUpdate hcs hasked hencode
    · have hchange : ∀ {s s' r params answer}, E.running text params s = (.ok answer, s') → True →
          (E.inTransaction s = true ∧ E.inTransaction r = true ∧ db r = db s) →
          ∃ r', E.change text params r = (.ok answer.changes, r') ∧
            E.inTransaction s' = true ∧ E.inTransaction r' = true ∧ db r' = db s' := by
        rintro s s' r params answer hrun - ⟨hs, hr, hdb⟩
        obtain ⟨r', hr', hdb', hopen'⟩ := hauto.change hs hrun hr hdb
        exact ⟨r', hr', hauto.open_of_running hs hrun, hopen', hdb'⟩
      obtain ⟨later, r₁, ⟨-, hopen, hdb⟩, heach⟩ := Table.updateEach_of_ran hupdate hchange hran
        (fun _ _ _ _ _ _ _ => trivial) ⟨hopen₁, hopen₀, hdb₀.trans hdb₁.symm⟩ earlier
      obtain ⟨r₂, hcommit', hdb₂⟩ := hauto.control_commit hcommit hopen hdb
      exact ⟨s₀, later, r₁, r₂, hbegin, heach, hcommit', hdb₂⟩
  · intro s s' n hjob
    obtain ⟨s₁, s₂, hstarted, hran, hcommit⟩ := Engine.Interface.ran_of_batch hjob
    obtain ⟨-, -, hclosed, -, hdb₁, hopen₁⟩ := hauto.started hstarted
    refine ⟨s₁, hstarted, fun earlier => ⟨fun hcommits => ?_, fun hcommits => ?_⟩⟩
    · have hchange : ∀ {s s' r params answer}, E.running text params s = (.ok answer, s') →
          E.Commits s' → (E.inTransaction s = true ∧ E.inTransaction r = false ∧ db r = db s) →
          ∃ r', E.change text params r = (.ok answer.changes, r') ∧
            E.inTransaction s' = true ∧ E.inTransaction r' = false ∧ db r' = db s' := by
        rintro s s' r params answer hrun hcommit ⟨hs, hr, hdb⟩
        obtain ⟨r', hr', hdb', hclosed'⟩ := hauto.change_alone hs hrun hcommit hr hdb
        exact ⟨r', hr', hauto.open_of_running hs hrun, hclosed', hdb'⟩
      obtain ⟨later, s'', ⟨-, -, hdb⟩, heach⟩ :=
        Table.updateEach_of_ran hupdate hchange hran hcommits
        ⟨hopen₁, hclosed, hdb₁.symm⟩ earlier
      obtain ⟨answer, hcommitted⟩ := Engine.Interface.control_eq_ok hcommit
      exact ⟨later, s'', hdb.trans (hauto.committed hcommitted).symm, heach⟩
    · exact Table.updateEach_refused hupdate hauto hran hopen₁ hcommits hclosed hdb₁.symm earlier

open Example

/-- Numbers above a bound get another one. -/
def above : Predicate := .raw "id > :low" ["low"]

/-- The number above 0 becomes 9, and then the one above 8 becomes 4. -/
def raised : List (Row × Row) :=
  [(oneInteger "id" 9, oneInteger "low" 0), (oneInteger "id" 4, oneInteger "low" 8)]

/-- The stored number 5 becomes 9 and then 4, at once and by two updates. -/
theorem updateMany_updates_pairs_of_numbers :
    ∃ job s s'' later,
    (numbers.updateMany Engine.Connection.interface ["id"] above raised numbers.newCache).1 =
        .ok job ∧ job numbersAt = (.ok 2, s) ∧
      numbers.updateEach Engine.Connection.interface above raised ⟨numbers.newCache, numbersAt⟩ =
        (.ok 2, ⟨numbers.newCache.requested later, s''⟩) ∧ s''.outside = s.outside := by
  obtain ⟨job, hjob, hcount⟩ :
      ∃ job, (numbers.updateMany Engine.Connection.interface ["id"] above raised
      (numbers.newCache.requested [])).1 = .ok job ∧ (job numbersAt).1 = .ok 2 :=
        ⟨_, rfl, by decide +kernel⟩
  have haccepted : (numbers.updateEach Engine.Connection.interface above raised
      ⟨numbers.newCache.requested [], numbersAt⟩).1 = .ok 2 := by decide +kernel
  obtain ⟨text, encode, hpairs⟩ := updateMany_updates_pairs
    (fun shape text hshape htext =>
      Engine.Connection.autocommits (startsChange_statementText hshape htext)) hjob
  rcases hrun : job numbersAt with ⟨result, s⟩
  rw [hrun] at hcount
  cases hcount
  obtain ⟨s₁, -, halone⟩ := hpairs.alone hrun
  obtain ⟨hsame, hrefused⟩ := halone []
  by_cases hcommits : Engine.Interface.Throughout Engine.Connection.interface text encode
      Engine.Connection.interface.Commits s₁ raised
  · obtain ⟨later, s'', hdb, heach⟩ := hsame hcommits
    exact ⟨job, s, s'', later, hjob, hrun, heach, hdb⟩
  · obtain ⟨e, after, herror⟩ := hrefused hcommits
    rw [herror] at haccepted
    cases haccepted

/-- The item 1 gets a label and loses it again. -/
def relabelled : List (Row × Row) :=
  [(Keyed.empty.insert "label" (.text "a"), oneInteger "id" 1),
    (Keyed.empty.insert "label" .null, oneInteger "id" 1)]

/-- Labels have to be listed in a table of their own, which is checked at the end of a transaction.
Both changes of a label at once are accepted, but the first one by itself is refused. -/
theorem relabelled_at_once_only :
    (∃ job, (items.updateMany Engine.Connection.interface ["label"] (.columns ["id"]) relabelled
        items.newCache).1 = .ok job ∧ (job listedItemsAt).1 = .ok 2) ∧
      (items.updateEach Engine.Connection.interface (.columns ["id"]) relabelled
        ⟨items.newCache, listedItemsAt⟩).1 =
          .error (.refused "UPDATE items SET label=:label WHERE id=:__where_id"
            .foreignKeyFailed) :=
  ⟨⟨_, rfl, by decide +kernel⟩, by decide +kernel⟩

end TypedTables
