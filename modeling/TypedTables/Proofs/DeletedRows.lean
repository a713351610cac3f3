import TypedTables.Proofs.PagedContent
import TypedTables.Proofs.ResultLists

/-!
# Deleting rows and handing them out

A statement that deletes rows and returns them has deleted all of them before the first one is read.
So a row that cannot be read as a record ends the operation with an error when the rows are gone
already, and nothing brings them back: no transaction is open that would be undone.
-/
namespace TypedTables

/-- Collecting all rows reads them one after the other, up to the first one that cannot be read. -/
theorem collect_handOut {α ρ : Type} (decode : α → Except Error ρ) (rows : List ρ) (as : List α) :
    (handOut decode wantsAll rows as).collect = (as.mapM decode).map (rows ++ ·) := by
  induction as generalizing rows with
  | nil =>
    rw [handOut, List.mapM_nil]
    exact congrArg Except.ok (List.append_nil rows).symm
  | cons a as ih =>
    rw [handOut, List.mapM_cons]
    cases decode a with
    | error e => rfl
    | ok r =>
      have hrest := ih (rows ++ [r])
      simp only [wantsAll, if_true]
      rw [hrest]
      cases as.mapM decode with
      | error e => rfl
      | ok rs => exact congrArg Except.ok (List.append_assoc rows [r] rs)

theorem collect_handOut_nil {α ρ : Type} (decode : α → Except Error ρ) (as : List α) :
    (handOut decode wantsAll [] as).collect = as.mapM decode := by
  rw [collect_handOut]
  cases as.mapM decode <;> rfl

namespace Engine.Interface

variable {σ ρ : Type} {E : Interface σ} {text : String} {params : Params} {s s₁ s₂ : σ}
  {decode : List String → List Stored → Except Error ρ} {wants : Demand ρ}

theorem rows_of_prepare_error {fault : Fault} (h : E.prepare text s = (.error fault, s₁)) :
    E.rows text params decode wants s = (.failure (.refused text fault), s₁) := by
  simp only [rows, preparing, h, except_mapError_error]

theorem rows_of_run_error {names : List String} {fault : Fault}
    (h : E.prepare text s = (.ok names, s₁)) (hrun : E.run text params s₁ = (.error fault, s₂)) :
    E.rows text params decode wants s = (.failure (.refused text fault), s₂) := by
  simp only [rows, preparing, running, h, hrun, except_mapError_ok, except_mapError_error]

theorem rows_of_run_ok {names : List String} {answer : Answer}
    (h : E.prepare text s = (.ok names, s₁)) (hrun : E.run text params s₁ = (.ok answer, s₂)) :
    E.rows text params decode wants s = (handOut (decode names) wants [] answer.rows, s₂) := by
  simp only [rows, preparing, running, h, hrun, except_mapError_ok]

end Engine.Interface

namespace Engine.Connection

variable {c : Connection} {text : String} {params : Params} {plan : Plan} {fault : Fault}

theorem run_of_bind_error (h : c.plan text = .ok plan)
    (hbind : Engine.bind plan params = .error fault) :
    c.run text params = (.error fault, c) := by
  rw [run, h]
  dsimp only
  rw [hbind]

theorem run_of_bind_ok {bound : String → Stored} (h : c.plan text = .ok plan)
    (hbind : Engine.bind plan params = .ok bound) : c.run text params = c.execute bound plan := by
  rw [run, h]
  dsimp only
  rw [hbind]

end Engine.Connection

namespace Deletion

open Engine

variable {σ ρ : Type}

/-- What a statement that deletes rows and returns them does to a content: it is refused, and leaves
the content as it is; or it removes the rows that it chooses, and answers the values of these. -/
structure Removes (E : Interface σ) (content : σ → List StoredRow)
    (names : List String) (text : String) (params : Params) (s : σ) : Prop where
  unprepared : ∀ {fault s₁}, E.prepare text s = (.error fault, s₁) → content s₁ = content s
  named : ∀ {answered s₁}, E.prepare text s = (.ok answered, s₁) → answered = names
  refused : ∀ {answered fault s₁ s₂}, E.prepare text s = (.ok answered, s₁) →
    E.run text params s₁ = (.error fault, s₂) → content s₂ = content s
  removed : ∀ {answered answer s₁ s₂}, E.prepare text s = (.ok answered, s₁) →
    E.run text params s₁ = (.ok answer, s₂) → ∃ chosen : StoredRow → Bool,
      answer.rows = ((content s).filter chosen).map StoredRow.values ∧
      content s₂ = (content s).filter fun r => !chosen r

/-- What became of an operation that deletes rows and reads them: nothing was deleted, and there is
an error; or the chosen rows are gone, and it answers what they are read as. -/
inductive Deleted (content : List StoredRow) (read : StoredRow → Except Error ρ) :
    Except Error (List ρ) → List StoredRow → Prop where
  | refused (e : Error) : Deleted content read (.error e) content
  | removed (chosen : StoredRow → Bool) :
    Deleted content read ((content.filter chosen).mapM read) (content.filter fun r => !chosen r)

/-- What a job that deletes rows and reads them as records answers and leaves. -/
theorem Removes.rows {E : Interface σ} {content : σ → List StoredRow}
    {names : List String} {text : String} {params : Params} {s : σ}
    (hE : Removes E content names text params s)
    (decode : List String → List Stored → Except Error ρ) :
    Deleted (content s) (fun r => decode names r.values)
      (E.rows text params decode wantsAll s).1.collect
      (content (E.rows text params decode wantsAll s).2) := by
  rcases hprepare : E.prepare text s with ⟨fault | answered, s₁⟩
  · rw [Interface.rows_of_prepare_error hprepare, hE.unprepared hprepare]
    exact .refused _
  · rcases hrun : E.run text params s₁ with ⟨fault | answer, s₂⟩
    · rw [Interface.rows_of_run_error hprepare hrun, hE.refused hprepare hrun]
      exact .refused _
    · obtain ⟨chosen, hrows, hkept⟩ := hE.removed hprepare hrun
      have hread : (handOut (decode answered) wantsAll [] answer.rows).collect =
          ((content s).filter chosen).mapM fun r => decode names r.values := by
        rw [collect_handOut_nil, hrows, hE.named hprepare, List.mapM_map]
        rfl
      rw [Interface.rows_of_run_ok hprepare hrun, hread, hkept]
      exact .removed chosen

/-! ### The engine that stores tables -/

/-- A stored table in which a row is found by its place: no other row has the same one. -/
structure Placed (t : StoredTable) : Prop where
  columns : t.columns ≠ []
  width : ∀ r ∈ t.rows, r.values.length = t.columns.length
  places : ∀ r ∈ t.rows, ∀ r' ∈ t.rows, t.compareRows r r' = .eq ↔ r = r'

/-- Removing rows leaves those that have another place than each of them. -/
theorem foldl_remove (t : StoredTable) (rows : List StoredRow) :
    rows.foldl StoredTable.remove t =
      { t with rows := t.rows.filter fun s => rows.all fun r => t.compareRows r s != .eq } := by
  induction rows generalizing t with
  | nil =>
    have hall : t.rows.filter (fun _ => true) = t.rows := List.filter_eq_self.mpr fun _ _ => rfl
    change t = { t with rows := t.rows.filter fun _ => true }
    rw [hall]
  | cons r rows ih =>
    have hplaces : ∀ r' s, (t.remove r).compareRows r' s = t.compareRows r' s := fun _ _ => rfl
    have hrows : (t.remove r).rows = t.rows.filter fun s => t.compareRows r s != .eq := rfl
    rw [List.foldl_cons, ih]
    simp only [hplaces, hrows, List.filter_filter, List.all_cons, Bool.and_comm]
    rfl

theorem rows_deleteRows {t : StoredTable} (ht : Placed t) (chosen : StoredRow → Bool) :
    (t.deleteRows (t.rows.filter chosen)).table.rows = t.rows.filter fun r => !chosen r := by
  rw [StoredTable.deleteRows, foldl_remove]
  refine List.filter_congr fun r hr => ?_
  cases hchosen : chosen r with
  | true =>
    have hmem : r ∈ t.rows.filter chosen := List.mem_filter.mpr ⟨hr, hchosen⟩
    refine List.all_eq_false.mpr ⟨r, hmem, ?_⟩
    simp [(ht.places r hr r hr).mpr rfl]
  | false =>
    refine List.all_eq_true.mpr fun r' hr' => ?_
    obtain ⟨hmem, hchosen'⟩ := List.mem_filter.mp hr'
    have hne : t.compareRows r' r ≠ .eq := by
      intro heq
      rw [(ht.places r' hmem r hr).mp heq, hchosen] at hchosen'
      cases hchosen'
    simpa using hne

theorem name_deleteRows (t : StoredTable) (rows : List StoredRow) :
    (t.deleteRows rows).table.name = t.name := by
  rw [StoredTable.deleteRows, foldl_remove]

def rowsAt (p : Place) (c : Connection) : List StoredRow :=
  ((c.catalog.table? p).map StoredTable.rows).getD []

theorem sameName_refl (name : String) : sameName name name = true := by simp [sameName]

/-- A database has the new state of a table in the place of the old one. -/
theorem table?_setTable {d : Database} {t t' : StoredTable} (h : d.table? t'.name = some t) :
    (d.setTable t').table? t'.name = some t' := by
  have htables : (d.setTable t').tables =
      d.tables.map fun u => if sameName u.name t'.name then t' else u := by
    rw [Database.tables, Database.tables, Database.setTable, List.filterMap_map, List.map_filterMap]
    refine congrArg (List.filterMap · d.objects) (funext fun o => ?_)
    cases o <;> rfl
  have hfound : ∀ u : StoredTable,
      sameName (if sameName u.name t'.name then t' else u).name t'.name =
        sameName u.name t'.name := by
    intro u
    split
    next hsame => rw [hsame, sameName_refl]
    next => rfl
  have hsame : sameName t.name t'.name = true := by
    have hfind := List.find?_some h
    exact hfind
  rw [Database.table?] at h
  rw [Database.table?, htables, List.find?_map]
  simp only [Function.comp_def, hfound, h, Option.map_some, hsame, if_true]

/-- A catalog has the new state of a table in the place of the old one. -/
theorem catalog_table?_setTable {c : Catalog} {i : Nat} {t t' : StoredTable}
    (h : (c.database i).table? t.name = some t) (hname : t'.name = t.name) :
    (c.setTable i t').table? ⟨i, t.name⟩ = some t' := by
  have hin : i < c.databases.length := by
    refine Decidable.byContradiction fun hout => ?_
    rw [Catalog.database, List.getElem?_eq_none (Nat.le_of_not_lt hout)] at h
    cases h
  have hdatabase : (c.setTable i t').database i = (c.database i).setTable t' := by
    rw [Catalog.setTable, Catalog.database, Catalog.set, List.getElem?_set_self hin]
    rfl
  rw [← hname] at h
  rw [Catalog.table?, Catalog.tableIn?, hdatabase, ← hname, table?_setTable h]

/-- Looking up the names of a statement that deletes rows and returns them with all columns: it is
refused, or it deletes from the table that its name refers to. -/
theorem plan_delete {c : Connection} {text : String} {rest : Option Nat} {name : ObjectName}
    {condition : Option (Expr ColumnRef)} {i : Nat} {t : StoredTable}
    (hread : readStatement text = .ok (.delete name condition [.all], rest))
    (hfind : c.catalog.find? name = some (i, t)) :
    (∃ fault, c.plan text = .error fault) ∨
    ∃ condition', c.plan text = .ok (.delete ⟨i, t.name⟩ condition' (Paging.columnOutputs t)) := by
  have hplan : c.plan text =
      (planDelete c.catalog name condition [.all]).mapError (Complaint.toFault · text) >>=
        c.admitted := by
    rw [Connection.plan, hread]
    rfl
  rw [hplan]
  cases hdelete : planDelete c.catalog name condition [.all] with
  | error complaint => exact .inl ⟨complaint.toFault text, rfl⟩
  | ok plan =>
    rw [planDelete] at hdelete
    obtain ⟨⟨i', t'⟩, hwritable, hdelete⟩ := except_bind_eq_ok.mp hdelete
    obtain ⟨condition', -, hdelete⟩ := except_bind_eq_ok.mp hdelete
    obtain ⟨returned, hreturned, hdelete⟩ := except_bind_eq_ok.mp hdelete
    have hfound : (i, t) = (i', t') := by
      rw [requireWritable, requireTable, hfind] at hwritable
      obtain ⟨found, hfound, hwritable⟩ := except_bind_eq_ok.mp hwritable
      cases hfound
      dsimp only at hwritable
      split at hwritable
      · cases hwritable
      · exact Except.ok.inj hwritable
    cases hfound
    have houtputs : outputs (some t) [.all] = .ok (Paging.columnOutputs t) := by
      change Except.ok (Paging.columnOutputs t ++ []) = _
      rw [List.append_nil]
    cases houtputs.symm.trans hreturned
    cases hdelete
    change (∃ fault, c.admitted _ = .error fault) ∨ ∃ condition', c.admitted _ = .ok _
    rw [Connection.admitted]
    split
    next fault _ => exact .inl ⟨fault, rfl⟩
    next => exact .inr ⟨condition', rfl⟩

theorem matching_eq_filter (t : StoredTable) (condition : Option (Expr Engine.Slot))
    (bound : String → Stored) :
    ∃ chosen, Connection.matching t condition bound = t.rows.filter chosen := by
  cases condition with
  | none => exact ⟨fun _ => true, (List.filter_eq_self.mpr fun _ _ => rfl).symm⟩
  | some e => exact ⟨fun r => e.holds bound r.cells, rfl⟩

/-- Running a statement that deletes rows and returns them with all columns. -/
theorem execute_delete {c : Connection} {i : Nat} {t : StoredTable} (ht : Placed t)
    (hplace : (c.catalog.database i).table? t.name = some t) (bound : String → Stored)
    (condition : Option (Expr Engine.Slot)) :
    (∃ fault, c.execute bound (.delete ⟨i, t.name⟩ condition (Paging.columnOutputs t)) =
      (.error fault, c)) ∨
    ∃ chosen changes c', c.execute bound (.delete ⟨i, t.name⟩ condition (Paging.columnOutputs t)) =
        (.ok ⟨(t.rows.filter chosen).map StoredRow.values, changes⟩, c') ∧
      rowsAt ⟨i, t.name⟩ c' = t.rows.filter fun r => !chosen r := by
  obtain ⟨chosen, hchosen⟩ := matching_eq_filter t condition bound
  have htable : c.catalog.table? ⟨i, t.name⟩ = some t := by
    rw [Catalog.table?, Catalog.tableIn?, hplace]
  have hoptions : (Paging.columnOutputs t).isEmpty = false := by
    rw [List.isEmpty_eq_false_iff]
    intro hnil
    have hnames := Paging.names_columnOutputs t
    rw [hnil] at hnames
    exact ht.columns (List.map_eq_nil_iff.mp hnames.symm)
  have hvalues :
      (t.rows.filter chosen).map (fun r => valuesOf bound (Paging.columnOutputs t) 0 r.cells) =
      (t.rows.filter chosen).map StoredRow.values :=
    List.map_congr_left fun r hr =>
      Paging.valuesOf_columnOutputs (ht.width r (List.mem_filter.mp hr).1)
  rw [Connection.execute, Connection.change, htable]
  dsimp only
  split
  · rw [Connection.settle]
    dsimp only
    split
    · exact .inl ⟨_, rfl⟩
    · refine .inr ⟨chosen, (t.rows.filter chosen).length,
        c.advance (c.catalog.setTable i (t.deleteRows (t.rows.filter chosen)).table), ?_, ?_⟩
      · rw [hchosen, ← hvalues]
        simp only [Changed.settle, StoredTable.deleteRows, hoptions, Bool.false_eq_true, if_false]
      · rw [rowsAt, Connection.advance, catalog_table?_setTable hplace (name_deleteRows t _)]
        exact rows_deleteRows ht chosen
  · exact .inl ⟨_, rfl⟩

/-- The engine removes the rows that it answers. -/
theorem connection_removes {c : Connection} {text : String} {rest : Option Nat} {name : ObjectName}
    {condition : Option (Expr ColumnRef)} {i : Nat} {t : StoredTable}
    (hread : readStatement text = .ok (.delete name condition [.all], rest))
    (hfind : c.catalog.find? name = some (i, t))
    (hplace : (c.catalog.database i).table? t.name = some t) (ht : Placed t) (params : Params) :
    Removes Connection.interface (rowsAt ⟨i, t.name⟩) (t.columns.map TableColumn.name)
      text params c := by
  have hcontent : rowsAt ⟨i, t.name⟩ c = t.rows := by
    rw [rowsAt, Catalog.table?, Catalog.tableIn?, hplace]
    rfl
  rcases plan_delete hread hfind with ⟨fault, hplan⟩ | ⟨condition', hplan⟩
  · have hprepare : Connection.interface.prepare text c = (.error fault, c) := by
      change (c.prepare text, c) = _
      rw [Connection.prepare, hplan]
      rfl
    exact {
      unprepared := fun h => by cases hprepare.symm.trans h; rfl
      named := fun h => by cases hprepare.symm.trans h
      refused := fun h => by cases hprepare.symm.trans h
      removed := fun h => by cases hprepare.symm.trans h }
  · have hprepare :
        Connection.interface.prepare text c = (.ok (t.columns.map TableColumn.name), c) := by
      change (c.prepare text, c) = _
      rw [Connection.prepare, hplan, ← Paging.names_columnOutputs]
      rfl
    have hends : (∃ fault, c.run text params = (.error fault, c)) ∨
        ∃ chosen changes c', c.run text params =
            (.ok ⟨(t.rows.filter chosen).map StoredRow.values, changes⟩, c') ∧
          rowsAt ⟨i, t.name⟩ c' = t.rows.filter fun r => !chosen r := by
      cases hbind :
        Engine.bind (.delete ⟨i, t.name⟩ condition' (Paging.columnOutputs t)) params with
      | error fault => exact .inl ⟨fault, Connection.run_of_bind_error hplan hbind⟩
      | ok bound =>
        rw [Connection.run_of_bind_ok hplan hbind]
        exact execute_delete ht hplace bound condition'
    refine {
      unprepared := fun h => by cases hprepare.symm.trans h
      named := fun h => by cases hprepare.symm.trans h; rfl
      refused := fun h hrefused => ?_
      removed := fun h hanswered => ?_ }
    · cases hprepare.symm.trans h
      rcases hends with ⟨fault, hfault⟩ | ⟨chosen, changes, c', hok, -⟩
      · cases hfault.symm.trans hrefused
        rfl
      · cases hok.symm.trans hrefused
    · cases hprepare.symm.trans h
      rcases hends with ⟨fault, hfault⟩ | ⟨chosen, changes, c', hok, hkept⟩
      · cases hfault.symm.trans hanswered
      · cases hok.symm.trans hanswered
        exact ⟨chosen, by rw [hcontent], by rw [hcontent, hkept]⟩

/-- What is built to delete what a filter chooses. -/
theorem deleteReturning_requested {t : Table ρ} {E : Interface σ} {f : Filter}
    {earlier : List Shape} {job : RowJob σ ρ}
    (h : (t.deleteReturning E f (t.newCache.requested earlier)).1 = .ok job) :
    ∃ predicate params text, f.compile t.schema "" = .ok (predicate, params) ∧
      t.schema.statementText t.name (.delete ⟨predicate, some .all⟩) = .ok text ∧
      job = E.rows text params (t.decodeRecords 0) := by
  rw [Table.deleteReturning, Table.building_bind_eq_ok] at h
  obtain ⟨⟨predicate, params⟩, hcompile, h⟩ := h
  rw [Table.building_bind_eq_ok] at h
  obtain ⟨text, htext, h⟩ := h
  have hstatement :=
    Table.statement_requested t.schema t.name earlier (.delete ⟨predicate, some .all⟩)
  refine ⟨predicate, params, text, hcompile, hstatement.symm.trans htext, ?_⟩
  cases h
  rfl

end Deletion

open Deletion Example

/-- Assume of the engine that a statement with RETURNING, unless it is refused, answers the rows
that it removes (`Removes`; a clause that ends in a comment takes RETURNING away, and is set aside).
Deleting what a filter chooses and reading it then either fails before anything is deleted, or it
deletes the chosen rows and answers exactly what they are read as, each once and in their order. If
one of them cannot be read the answer is its error, and the rows are gone all the same. -/
theorem delete_returning_deleted {σ ρ : Type} {t : Table ρ} {E : Engine.Interface σ}
    {content : σ → List Engine.StoredRow} {names : List String} {f : Filter} {s : σ}
    (hE : ∀ predicate params text, f.compile t.schema "" = .ok (predicate, params) →
      t.schema.statementText t.name (.delete ⟨predicate, some .all⟩) = .ok text →
      Removes E content names text params s) (earlier : List Shape) :
    ∃ r session, (t.deleteReturning E f).collectDirect ⟨t.newCache.requested earlier, s⟩ =
      (r, session) ∧
      ((∃ e, r = .error e ∧ content session.connection = content s) ∨
        ∃ chosen : Engine.StoredRow → Bool,
          content session.connection = ((content s).filter fun row => !chosen row) ∧
          r = ((content s).filter chosen).mapM fun row => t.decodeRecords 0 names row.values) ∧
      (∀ e, r = .error e → content session.connection = content s ∨
        ∃ row ∈ content s, row ∉ content session.connection ∧
          t.decodeRecords 0 names row.values = .error e) := by
  cases hbuilt : (t.deleteReturning E f (t.newCache.requested earlier)).1 with
  | error e =>
    refine ⟨_, _, Building.collectDirect_of_error hbuilt, .inl ⟨e, rfl, rfl⟩, fun _ _ => .inl rfl⟩
  | ok job =>
    obtain ⟨predicate, params, text, hcompile, htext, rfl⟩ := deleteReturning_requested hbuilt
    have hdeleted := (hE predicate params text hcompile htext).rows (t.decodeRecords 0)
    refine ⟨_, _, Building.collectDirect_of_ok hbuilt, ?_⟩
    dsimp only
    generalize (E.rows text params (t.decodeRecords 0) wantsAll s).1.collect = r at hdeleted ⊢
    generalize content (E.rows text params (t.decodeRecords 0) wantsAll s).2 = left at hdeleted ⊢
    cases hdeleted with
    | refused e => exact ⟨.inl ⟨e, rfl, rfl⟩, fun _ _ => .inl rfl⟩
    | removed chosen =>
      refine ⟨.inr ⟨chosen, rfl, rfl⟩, fun e he => .inr ?_⟩
      obtain ⟨before, row, after, hsplit, -, hread⟩ := mapM_eq_error_iff.mp he
      have hrow : row ∈ before ++ row :: after := List.mem_append_right before List.mem_cons_self
      obtain ⟨hmem, hchosen⟩ := List.mem_filter.mp (hsplit ▸ hrow)
      refine ⟨row, hmem, fun hkept => ?_, hread⟩
      simp [hchosen] at hkept

/-- All numbers of a table are deleted in which one cannot be read. -/
theorem delete_returning_deleted_numbers :
    ∃ r session, (numbers.deleteReturning Engine.Connection.interface .all).collectDirect
        ⟨numbers.newCache.requested [], keylessNumbersAt⟩ = (r, session) ∧
      ∀ e, r = .error e →
        rowsAt ⟨0, "numbers"⟩ session.connection = rowsAt ⟨0, "numbers"⟩ keylessNumbersAt ∨
        ∃ row ∈ rowsAt ⟨0, "numbers"⟩ keylessNumbersAt,
          row ∉ rowsAt ⟨0, "numbers"⟩ session.connection ∧
          numbers.decodeRecords 0 ["id"] row.values = .error e := by
  have hread : Engine.readStatement "DELETE FROM numbers RETURNING *" =
      .ok (.delete ⟨none, "numbers", 12⟩ none [.all], none) := by decide +kernel
  have hfind : keylessNumbersAt.catalog.find? ⟨none, "numbers", 12⟩ = some (0, keylessNumbers) := by
    decide +kernel
  have hplace :
      (keylessNumbersAt.catalog.database 0).table? keylessNumbers.name = some keylessNumbers := by
    decide +kernel
  have hkeyed : Placed keylessNumbers := ⟨by decide, by decide, by decide +kernel⟩
  have htext : numbers.schema.statementText numbers.name (.delete ⟨.all, some .all⟩) =
      .ok "DELETE FROM numbers RETURNING *" := by decide +kernel
  obtain ⟨r, session, hrun, -, herror⟩ := delete_returning_deleted (f := .all) (t := numbers)
    (E := Engine.Connection.interface) (s := keylessNumbersAt)
    (fun predicate params text hcompile hstatement => by
      cases hcompile
      cases htext.symm.trans hstatement
      exact connection_removes hread hfind hplace hkeyed .empty) []
  exact ⟨r, session, hrun, herror⟩

/-- The error of the missing number is answered, and no number is left. -/
theorem delete_returning_loses :
    ((numbers.deleteReturning Engine.Connection.interface .all).collectDirect
        ⟨numbers.newCache, keylessNumbersAt⟩).1 =
      .error (.undecodable (.validation (.column "id" .storedNull))) ∧
    rowsAt ⟨0, "numbers"⟩ keylessNumbersAt ≠ [] ∧
    rowsAt ⟨0, "numbers"⟩ ((numbers.deleteReturning Engine.Connection.interface .all).collectDirect
      ⟨numbers.newCache, keylessNumbersAt⟩).2.connection = [] := by
  refine ⟨?_, ?_, ?_⟩ <;> decide +kernel

end TypedTables
