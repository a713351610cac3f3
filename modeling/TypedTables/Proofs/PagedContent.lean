import Mathlib.Control.Monad.Basic
import TypedTables.Example.Tables
import TypedTables.Proofs.PageQueries

/-!
# Pages of a stored table

The engine answers a page from the rows that the table stores: it keeps those behind the start of
the page, which are in the order of their rowids already, and cuts them off at the limit. So a walk
hands out the records of the rows with positive rowids, for as long as its consumer wants them.
-/
namespace TypedTables

namespace Paging

open Engine

def rowidAt (offset : Nat) : Expr ColumnRef := .column ⟨none, "rowid", false, offset⟩

/-- The statement that asks for a page, as it is read: the name of the table, and where the rowid
stands in its three clauses. -/
def pageCommand (name : ObjectName) (shownAt comparedAt sortedAt : Nat) : Command :=
  .select false [.value (rowidAt shownAt) none "rowid", .all] (some name)
    (some (.compare .gt (rowidAt comparedAt) (.parameter ":not_before")))
    [⟨rowidAt sortedAt, .ascending⟩] (some (.parameter ":__limit"))

def columnOutputs (t : StoredTable) : List NamedOutput :=
  t.columns.zipIdx.map fun (c, i) => ⟨c.name, .value (.column ⟨i, c.affinity, c.collation⟩)⟩

theorem names_columnOutputs (t : StoredTable) :
    (columnOutputs t).map NamedOutput.name = t.columns.map TableColumn.name := by
  calc (columnOutputs t).map NamedOutput.name
      = (t.columns.zipIdx.map Prod.fst).map TableColumn.name := by
        rw [columnOutputs, List.map_map, List.map_map]
        rfl
    _ = t.columns.map TableColumn.name := by rw [List.zipIdx_map_fst]

def pageQuery (p : Place) (t : StoredTable) : Query where
  distinct := false
  outputs := ⟨t.slotName t.rowidSlot, .value (.column t.rowidSlot)⟩ :: columnOutputs t
  source := some p
  condition := some (.compare .gt (.column t.rowidSlot) (.parameter ":not_before"))
  orderBy := [⟨.column t.rowidSlot, .ascending⟩]
  limit := some (.parameter ":__limit")

/-- A table with rowids: they rise from row to row, no other column takes their name, and a row has
a value for each column and its rowid in the slot of the rowid. -/
structure WithRowids (t : StoredTable) : Prop where
  keyless : t.key? = none
  unnamed : t.position? "rowid" = none
  rising : t.rows.Pairwise fun r r' => r.rowid < r'.rowid
  width : ∀ r ∈ t.rows, r.values.length = t.columns.length
  rowid : ∀ r ∈ t.rows, r.cells[t.rowidSlot.position]? = some (.integer r.rowid)

theorem slot_rowid {t : StoredTable} (hkey : t.key? = none) (hname : t.position? "rowid" = none) :
    t.slot? "rowid" = some t.rowidSlot := by
  have hrowid : StoredTable.rowidNames.any (sameName "rowid") = true := by decide
  rw [StoredTable.slot?, hname, hkey]
  simp only [Option.isNone_none, hrowid, Bool.and_self, if_true]

/-- Looking up the names of a page's statement gives the query for the page. -/
theorem plan_pageCommand {c : Catalog} {name : ObjectName} {i : Nat} {t : StoredTable}
    (hfind : c.find? name = some (i, t)) (hkey : t.key? = none) (hname : t.position? "rowid" = none)
    (shownAt comparedAt sortedAt : Nat) :
    Plan.of c (pageCommand name shownAt comparedAt sortedAt) =
      .ok (.select (pageQuery ⟨i, t.name⟩ t)) := by
  have hlook : ∀ offset, lookUp (some t) [] ⟨none, "rowid", false, offset⟩ =
      .ok (.column t.rowidSlot) := by
    intro offset
    simp [lookUp, slot_rowid hkey hname]
  have hfound : requireTable c name = .ok (i, t) := by rw [requireTable, hfind]
  have houtputs : outputs (some t) [.value (rowidAt shownAt) none "rowid", .all] =
      .ok (⟨t.slotName t.rowidSlot, .value (.column t.rowidSlot)⟩ :: columnOutputs t) := by
    simp only [outputs, List.mapM_cons, List.mapM_nil, outputsOf, rowidAt,
      Expr.resolve, hlook, allColumns]
    change Except.ok (_ :: (columnOutputs t ++ [])) = _
    rw [List.append_nil]
    rfl
  have hcondition : resolve? (lookUp (some t) [])
      (some (.compare .gt (rowidAt comparedAt) (.parameter ":not_before"))) =
      .ok (some (.compare .gt (.column t.rowidSlot) (.parameter ":not_before"))) := by
    simp only [resolve?, rowidAt, Expr.resolve, hlook]
    rfl
  have hkeys : ∀ outputs, sortKeyOf (some t) [] outputs ⟨rowidAt sortedAt, .ascending⟩ =
      .ok ⟨.column t.rowidSlot, .ascending⟩ := by
    intro outputs
    rw [sortKeyOf, rowidAt]
    simp only [Expr.resolve, hlook]
    rfl
  rw [pageCommand, Plan.of, planSelect, hfound]
  change (do
    let outputs ← outputs (some t) [.value (rowidAt shownAt) none "rowid", .all]
    let condition ← resolve? (lookUp (some t) [])
      (some (.compare .gt (rowidAt comparedAt) (.parameter ":not_before")))
    let orderBy ← List.mapM (sortKeyOf (some t) [] outputs) [⟨rowidAt sortedAt, .ascending⟩]
    return Plan.select ⟨false, outputs, some ⟨i, t.name⟩, condition, orderBy,
      some (.parameter ":__limit")⟩) = _
  rw [houtputs, hcondition]
  change (do
    let orderBy ← List.mapM (sortKeyOf (some t) [] _) [⟨rowidAt sortedAt, .ascending⟩]
    return Plan.select ⟨false, _, some ⟨i, t.name⟩, _, orderBy, some (.parameter ":__limit")⟩) = _
  rw [List.mapM_cons, hkeys]
  rfl

variable {t : StoredTable} {params : String → Stored} {notBefore limit : Int64}

/-- The condition of a page holds of the rows behind its start. -/
theorem holds_behind {r : StoredRow} (hr : r.cells[t.rowidSlot.position]? = some (.integer r.rowid))
    (hstart : params ":not_before" = .integer notBefore) :
    Expr.holds (.compare .gt (.column t.rowidSlot) (.parameter ":not_before")) params r.cells =
      decide (notBefore < r.rowid) := by
  have hslot : t.rowidSlot.affinity = .integer := rfl
  have hcollation :
      Expr.comparisonCollation (.column t.rowidSlot) (.parameter ":not_before") = .binary := rfl
  have hcompare : Comparison.gt.holds (compareStored (.integer r.rowid) (.integer notBefore)) =
      decide (notBefore < r.rowid) := by
    rw [compareStored, Comparison.holds, Bool.eq_iff_iff, beq_iff_eq,
      Int.compare_eq_gt, decide_eq_true_iff, Int64.lt_iff_toInt_lt]
  simp only [Expr.holds, Expr.eval, hr, hstart, Option.getD_some, Expr.affinity?,
    comparisonAffinity, hslot, Expr.comparison, converted, Affinity.isNumeric, numeric,
    reduceCtorEq, or_self, if_false, if_true, hcollation, Collation.compare_binary, hcompare]
  by_cases h : notBefore < r.rowid <;> simp [h, ofTruth?, truth?, boolInt]

theorem readsForwards (hkey : t.key? = none) (p : Place) :
    (pageQuery p t).readsBackwards t = false := by
  simp [Query.readsBackwards, StoredTable.keyPositions, hkey, pageQuery, Query.isFalling]

/-- The columns of a table answer the values of a row. -/
theorem valuesOf_columnOutputs {r : StoredRow} (hwidth : r.values.length = t.columns.length) :
    valuesOf params (columnOutputs t) 0 r.cells = r.values := by
  refine List.ext_getElem (by simp [valuesOf, columnOutputs, hwidth]) ?_
  intro i h₁ h₂
  have hi : (r.values ++ [Stored.integer r.rowid])[i]? = some r.values[i] := by
    rw [List.getElem?_append_left h₂, List.getElem?_eq_getElem h₂]
  simp [valuesOf, columnOutputs, Expr.eval, StoredRow.cells, hi]

/-- A row is shown with its rowid in front. -/
theorem valuesOf_shown {r : StoredRow} (p : Place) (hwidth : r.values.length = t.columns.length)
    (hr : r.cells[t.rowidSlot.position]? = some (.integer r.rowid)) :
    valuesOf params (pageQuery p t).outputs 0 r.cells = shown r := by
  have hrowid : valuesOf params (pageQuery p t).outputs 0 r.cells =
      r.cells[t.rowidSlot.position]?.getD .null :: valuesOf params (columnOutputs t) 0 r.cells :=
        rfl
  rw [hrowid, hr, valuesOf_columnOutputs hwidth]
  rfl

/-- A query for a page answers the rows behind its start, up to its limit. -/
theorem pageQuery_rows (ht : WithRowids t) (p : Place)
    (hstart : params ":not_before" = .integer notBefore)
    (hlimit : params ":__limit" = .integer limit) (hpos : 0 < limit) :
    (pageQuery p t).rows (some t) params =
      .ok (((behind t.rows notBefore).take limit.toInt.toNat).map shown) := by
  have hchosen : (pageQuery p t).chosen (some t) params =
      (behind t.rows notBefore).map StoredRow.cells := by
    rw [Query.chosen, readsForwards ht.keyless]
    simp only [pageQuery, Bool.false_eq_true, if_false, List.filter_map, behind]
    refine congrArg _ (List.filter_congr fun r hr => ?_)
    exact holds_behind (ht.rowid r hr) hstart
  have hcounts : (pageQuery p t).counts = false := by
    simp [Query.counts, pageQuery, columnOutputs]
  have hkeyed : ((behind t.rows notBefore).map StoredRow.cells).map (fun c =>
      (valuesOf params (pageQuery p t).outputs 0 c,
        (pageQuery p t).orderBy.map fun k => k.key.eval params c)) =
      (behind t.rows notBefore).map fun r => (shown r, [Stored.integer r.rowid]) := by
    rw [List.map_map]
    refine List.map_congr_left fun r hr => ?_
    have hmem : r ∈ t.rows := (List.mem_filter.mp hr).1
    have hkey : (pageQuery p t).orderBy.map (fun k => k.key.eval params r.cells) =
        [r.cells[t.rowidSlot.position]?.getD .null] := rfl
    rw [Function.comp_apply, valuesOf_shown p (ht.width r hmem) (ht.rowid r hmem),
      hkey, ht.rowid r hmem]
    rfl
  have hresults :
      (pageQuery p t).results (some t) params = (behind t.rows notBefore).map shown := by
    have hsort : (pageQuery p t).results (some t) params =
        ((((pageQuery p t).chosen (some t) params).map fun c =>
          (valuesOf params (pageQuery p t).outputs 0 c,
            (pageQuery p t).orderBy.map fun k => k.key.eval params c)).mergeSort fun a b =>
              compareKeys [(.ascending, .binary)] a.2 b.2 != .gt).map (·.1) := by
      rw [Query.results, hcounts]
      rfl
    rw [hsort, hchosen, hkeyed, List.mergeSort_of_pairwise, List.map_map]
    · rfl
    · rw [List.pairwise_map]
      exact (ht.rising.filter _).imp fun {r r'} h => by
        have hle : compare r.rowid.toInt r'.rowid.toInt = .lt :=
          Int.compare_eq_lt.mpr (Int64.lt_iff_toInt_lt.mp h)
        simp [compareKeys, compareStored, hle]
  have hpositive : ¬ limit < 0 := Int64.not_lt.mpr (Int64.le_of_lt hpos)
  have hrowid : rowidOf? (.integer limit) = some limit := rfl
  have hquery : (pageQuery p t).rows (some t) params =
      Query.limited ((pageQuery p t).results (some t) params) (params ":__limit") := rfl
  rw [hquery, hresults, hlimit, Query.limited, hrowid]
  dsimp only
  rw [if_neg hpositive, List.map_take]

/-- A page's parameters are bound to the query for the page. -/
theorem bind_pageParams (p : Place) (t : StoredTable) (limit notBefore : Int64) :
    ∃ bound, Engine.bind (.select (pageQuery p t)) (pageParams limit notBefore) = .ok bound ∧
      bound ":not_before" = .integer notBefore ∧ bound ":__limit" = .integer limit := by
  have hparameters : (Plan.select (pageQuery p t)).parameters = [":not_before", ":__limit"] := by
    simp [Plan.parameters, Plan.expressions, Plan.expressions.outputExpressions,
      pageQuery, columnOutputs, Expr.parameters, Function.comp_def, List.flatMap]
  have hnames : (pageParams limit notBefore).names = ["__limit", "not_before"] := rfl
  have hknown :
      ["__limit", "not_before"].find?
        (fun n => !([":not_before", ":__limit"].contains (":" ++ n))) =
      none := by decide
  have hstart : (pageParams limit notBefore).get? (String.ofList (":not_before".toList.drop 1)) =
      some (.integer notBefore) := rfl
  have hlimit : (pageParams limit notBefore).get? (String.ofList (":__limit".toList.drop 1)) =
      some (.integer limit) := rfl
  have hsign : ":not_before".startsWith ":" = true ∧ ":__limit".startsWith ":" = true := by
    decide +kernel
  rw [Engine.bind, hparameters, hnames, hknown]
  refine ⟨_, rfl, ?_, ?_⟩
  · simp only [hstart, hsign, if_true]
  · simp only [hlimit, hsign, if_true]

/-- The engine answers the pages of a table with rowids, as long as nothing changes it. -/
theorem connection_answers {c : Connection} {text : String} {rest : Option Nat} {name : ObjectName}
    {i shownAt comparedAt sortedAt : Nat}
    (hread : readStatement text = .ok (pageCommand name shownAt comparedAt sortedAt, rest))
    (hfind : c.catalog.find? name = some (i, t)) (hplace : c.catalog.table? ⟨i, t.name⟩ = some t)
    (ht : WithRowids t) :
    Answers Connection.interface text (t.slotName t.rowidSlot :: t.columns.map TableColumn.name)
      t.rows (· = c) := by
  have hplan : c.plan text = .ok (.select (pageQuery ⟨i, t.name⟩ t)) :=
    Connection.plan_of hread
      (plan_pageCommand hfind ht.keyless ht.unnamed shownAt comparedAt sortedAt)
      (Connection.admitted_of_free rfl)
  refine ⟨ht.rising, ?_, ?_⟩
  · rintro s rfl
    refine ⟨s, ?_, rfl⟩
    have hcolumns :
        s.prepare text = .ok (t.slotName t.rowidSlot :: t.columns.map TableColumn.name) := by
      rw [Connection.prepare, hplan, ← names_columnOutputs]
      rfl
    exact congrArg (·, s) hcolumns
  · rintro s limit notBefore rfl hpos
    obtain ⟨bound, hbind, hstart, hlimit⟩ := bind_pageParams ⟨i, t.name⟩ t limit notBefore
    refine ⟨0, s, ?_, rfl⟩
    have hrows := pageQuery_rows ht ⟨i, t.name⟩ hstart hlimit hpos
    have hrun : s.run text (pageParams limit notBefore) =
        (((pageQuery ⟨i, t.name⟩ t).rows (s.catalog.table? ⟨i, t.name⟩) bound).map fun rows =>
          ⟨rows, 0⟩, s) := by
      rw [Connection.run, hplan]
      dsimp only
      rw [hbind]
      rfl
    rw [hplace, hrows] at hrun
    exact hrun

end Paging

open Paging Example

/-- Walking a table in pages of any size hands out the records of the rows with positive rowids, in
the order of their rowids, and is then over. These are the records of all rows exactly if no rowid
is zero or negative. -/
theorem select_paginated_emits {σ ρ : Type} {t : Table ρ} {E : Engine.Interface σ}
    {names : List String} {content : List Engine.StoredRow} {holds : σ → Prop}
    {record : Engine.StoredRow → ρ} (hE : Answers E (pageText t.name) names content holds)
    (hrecord : ∀ r ∈ content, t.decodeRecords 1 names (shown r) = .ok (record r))
    {size : UInt64} (hsize : size ≠ 0) (earlier : List Shape) {s : σ} (hs : holds s) :
    ∃ rows session,
        (t.selectPaginated E size).handOutDirect wantsAll ⟨t.newCache.requested earlier, s⟩ =
        (.ok ⟨rows, .finished⟩, session) ∧
      holds session.connection ∧
      rows = (behind content 0).map record ∧
      (rows = content.map record ↔ ∀ r ∈ content, 0 < r.rowid) := by
  have hbuilt := selectPaginated_requested t E hsize earlier
  obtain ⟨s', hs', hwalk⟩ := walk_eq hE hsize wantsAll hs
  have hdecode : ∀ r ∈ behind content 0, t.decodePaged names (shown r) = .ok (record r) :=
    fun r hr => hrecord r (List.mem_filter.mp hr).1
  rw [handOut_wantsAll [] hdecode, List.nil_append] at hwalk
  have hrun := Building.handOutDirect_of_ok (s := ⟨t.newCache.requested earlier, s⟩) hbuilt wantsAll
  rw [hwalk] at hrun
  refine ⟨_, _, hrun, hs', rfl, ?_⟩
  · rw [← length_behind]
    constructor
    · intro heq
      simpa using congrArg List.length heq
    · intro hlen
      rw [behind, List.length_filter_eq_length_iff, ← List.filter_eq_self] at hlen
      rw [behind, hlen]

/-- The stored numbers are answered in pages. -/
theorem answers_numbers : Answers Engine.Connection.interface (pageText numbers.name) ["id", "id"]
    storedNumbers.rows (· = numbersAt) := by
  have hread : Engine.readStatement (pageText numbers.name) =
      .ok (pageCommand ⟨none, "numbers", 21⟩ 7 35 64, none) := by decide +kernel
  have hfind : numbersAt.catalog.find? ⟨none, "numbers", 21⟩ = some (0, storedNumbers) := by
    decide +kernel
  have hplace : numbersAt.catalog.table? ⟨0, storedNumbers.name⟩ = some storedNumbers := by
    decide +kernel
  have hrowids : WithRowids storedNumbers :=
    ⟨rfl, by decide, by decide, by decide, by decide⟩
  exact connection_answers hread hfind hplace hrowids

/-- The stored numbers are walked in pages of two. -/
theorem select_paginated_emits_numbers :
    ∃ rows session, (numbers.selectPaginated Engine.Connection.interface 2).handOutDirect wantsAll
        ⟨numbers.newCache.requested [], numbersAt⟩ = (.ok ⟨rows, .finished⟩, session) ∧
      session.connection = numbersAt ∧
      rows = (behind storedNumbers.rows 0).map Engine.StoredRow.rowid ∧
      (rows = storedNumbers.rows.map Engine.StoredRow.rowid ↔
        ∀ r ∈ storedNumbers.rows, 0 < r.rowid) := by
  have hdecode : ∀ r ∈ storedNumbers.rows,
      numbers.decodeRecords 1 ["id", "id"] (shown r) = .ok r.rowid := by
    decide +kernel
  exact select_paginated_emits answers_numbers hdecode (by decide) [] rfl

/-- Numbers that are not positive are left out of the pages, though they are among the records. -/
theorem select_paginated_skips :
    ((numbers.select Engine.Connection.interface .all .none).collectDirect
        ⟨numbers.newCache, numbersAt⟩).1 = .ok [-5, 0, 5] ∧
      ((numbers.selectPaginated Engine.Connection.interface 2).collectDirect
        ⟨numbers.newCache, numbersAt⟩).1 = .ok [5] := by
  constructor <;> decide +kernel

/-- A walk through a table that nothing changes asks for a page after the other, each behind the
last row of the one before, and not for one more than its consumer needs; at the end of the table it
asks for an empty one. It hands out the rows behind its start in the order of their rowids, up to
the one that its consumer wants to be the last. -/
theorem select_paginated_asks {σ ρ : Type} {t : Table ρ} {E : Engine.Interface σ}
    {names : List String} {content : List Engine.StoredRow} {holds : σ → Prop}
    (hE : Answers E (pageText t.name) names content holds) {size : UInt64} (hsize : size ≠ 0)
    (earlier : List Shape) (wants : Demand ρ) {s : σ} (hs : holds s) :
    ∃ emitted given starts session,
      (t.selectPaginated E.recorded size).handOutDirect wants
        ⟨t.newCache.requested earlier, (s, [])⟩ = (.ok emitted, session) ∧
      holds session.connection.1 ∧
      session.connection.2 = .prepare (pageText t.name) ::
        starts.map (fun i => .run (pageText t.name) (pageParams (pageLimit size) i)) ∧
      0 < pageLimit size ∧
      starts = pageStarts content (pageLimit size).toInt.toNat starts.length 0 ∧
      starts.Pairwise (· < ·) ∧
      starts.length = emitted.ending.pagesAsked (pageLimit size).toInt.toNat emitted.rows.length ∧
      starts.length ≤ (behind content 0).length + 1 ∧
      Served (fun r => t.decodePaged names (shown r)) wants (behind content 0) given emitted ∧
      given.Pairwise fun r r' => r.rowid < r'.rowid := by
  have hlimit := pageLimit_pos hsize
  obtain ⟨s', starts, hs', hwalk, hasks⟩ := recorded_walk_eq (t := t) hE hsize wants hs []
  rw [handOut_map] at hwalk hasks
  have hrun := Building.handOutDirect_of_ok (s := ⟨t.newCache.requested earlier, (s, [])⟩)
    (selectPaginated_requested t E.recorded hsize earlier) wants
  rw [hwalk] at hrun
  obtain ⟨given, hserved⟩ :=
    exists_served (fun r => t.decodePaged names (shown r)) wants (behind content 0)
  have hrows : (behind content 0).Pairwise fun r r' => r.rowid < r'.rowid := hE.rising.filter _
  have hfew : starts.length ≤ (behind content 0).length + 1 := by
    have hle := hserved.front.length_le
    have hasked := Ending.pagesAsked_le (handOut (fun r => t.decodePaged names (shown r)) wants []
      (behind content 0)).ending (toNat_pos hlimit) given.length
    rw [hasks.number, Nat.sub_zero, ← hserved.length_eq]
    omega
  refine ⟨_, given, starts, _, hrun, hs', rfl, hlimit, hasks.places, ?_,
    hasks.number, hfew, hserved, hrows.sublist hserved.front.sublist⟩
  rw [hasks.places]
  exact (pageStarts_rising hE.rising _ _ _).1

/-- A consumer that wants one number is handed the first positive one, and no second page is asked
for. -/
theorem select_paginated_asks_numbers :
    ∃ emitted session,
        (numbers.selectPaginated Engine.Connection.interface.recorded 1).handOutDirect (wantsUpTo 1)
        ⟨numbers.newCache.requested [], (numbersAt, [])⟩ = (.ok emitted, session) ∧
      emitted.rows = [5] ∧ emitted.ending = .stopped ∧
      session.connection.2 =
        [.prepare (pageText numbers.name),
          .run (pageText numbers.name) (pageParams (pageLimit 1) 0)] := by
  obtain ⟨emitted, given, starts, session, hrun, -, hlog, -, hplaces, -, hnumber, -⟩ :=
    select_paginated_asks answers_numbers (by decide : (1 : UInt64) ≠ 0) [] (wantsUpTo 1) rfl
  have hemitted :
      (((numbers.selectPaginated Engine.Connection.interface.recorded 1).handOutDirect (wantsUpTo 1)
      ⟨numbers.newCache.requested [], (numbersAt, [])⟩).1.map fun e => (e.rows, e.ending)) =
        .ok ([5], .stopped) := by
    decide +kernel
  rw [hrun] at hemitted
  obtain ⟨hrows, hending⟩ := Prod.mk.inj (Except.ok.inj hemitted)
  rw [hrows, hending] at hnumber
  have hone : starts.length = 1 := hnumber
  have hstarts : starts = [0] := by rw [hplaces, hone]; rfl
  exact ⟨emitted, session, hrun, hrows, hending, by rw [hlog, hstarts]; rfl⟩

end TypedTables
