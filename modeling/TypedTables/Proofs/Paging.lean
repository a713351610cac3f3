import Mathlib.Algebra.Group.Nat.Defs
import TypedTables.Engine.Connection
import TypedTables.Executor
import TypedTables.Proofs.Building
import TypedTables.Proofs.Params
import TypedTables.Table.Select

/-!
# Walking a table in pages

A page holds the rows behind a rowid, in the order of their rowids, up to a limit. The next page
starts behind its last row, so that the pages of a walk are the rows behind the rowid where the walk
starts, cut into pieces.
-/
namespace TypedTables

/-- Rows that are handed out in two parts: the second one counts if the first came to its end. -/
theorem handOut_append {α ρ : Type} (decode : α → Except Error ρ) (wants : Demand ρ) (rows : List ρ)
    (as bs : List α) :
    handOut decode wants rows (as ++ bs) =
      if (handOut decode wants rows as).ending = .finished then
        handOut decode wants (handOut decode wants rows as).rows bs
      else handOut decode wants rows as := by
  induction as generalizing rows with
  | nil => simp [handOut]
  | cons a as ih =>
    rw [List.cons_append, handOut, handOut]
    cases decode a with
    | error e => simp
    | ok r =>
      dsimp only
      by_cases hw : wants (rows ++ [r])
      · simpa [hw] using ih (rows ++ [r])
      · simp [hw]

/-- A consumer that wants every row is handed all of them, decoded. -/
theorem handOut_wantsAll {α β ρ : Type} {decode : α → Except Error ρ} {f : β → α} {record : β → ρ}
    (rows : List ρ) {bs : List β} (h : ∀ b ∈ bs, decode (f b) = .ok (record b)) :
    handOut decode wantsAll rows (bs.map f) = ⟨rows ++ bs.map record, .finished⟩ := by
  induction bs generalizing rows with
  | nil => simp [handOut]
  | cons b bs ih =>
    have hrest := ih (rows ++ [record b]) fun c hc => h c (List.mem_cons_of_mem _ hc)
    rw [List.map_cons, handOut, h b List.mem_cons_self]
    simpa [wantsAll] using hrest

namespace Paging

open Engine (StoredRow)

def behind (content : List StoredRow) (notBefore : Int64) : List StoredRow :=
  content.filter fun r => notBefore < r.rowid

/-- A row as a page shows it: its rowid, and then its values. -/
def shown (r : StoredRow) : List Stored := .integer r.rowid :: r.values

def pageText (table : TableName) : String :=
  "SELECT rowid, * FROM " ++ table.text ++ " WHERE rowid > :not_before" ++ " ORDER BY rowid ASC" ++
    " LIMIT :__limit"

def pageParams (limit notBefore : Int64) : Params :=
  (Params.empty.push limitPlaceholder (.integer limit)).push Table.pageStart (.integer notBefore)

/-- An engine answers pages of a content, in the states that hold it: the rows behind the start of
the page, in the order of their rowids, at most as many as the limit says. -/
structure Answers {σ : Type} (E : Engine.Interface σ) (text : String) (names : List String)
    (content : List StoredRow) (holds : σ → Prop) : Prop where
  rising : content.Pairwise fun r r' => r.rowid < r'.rowid
  prepared : ∀ s, holds s → ∃ s', E.prepare text s = (.ok names, s') ∧ holds s'
  page : ∀ s limit notBefore, holds s → 0 < limit → ∃ changes s',
    E.run text (pageParams limit notBefore) s =
      (.ok ⟨((behind content notBefore).take limit.toInt.toNat).map shown, changes⟩, s') ∧ holds s'

/-- What comes behind the last row of the first rows of a rising list are the other rows. -/
theorem behind_getLast {content : List StoredRow}
    (hc : content.Pairwise fun r r' => r.rowid < r'.rowid) {n : Nat} {last : StoredRow}
    (h : (content.take n).getLast? = some last) :
    behind content last.rowid = content.drop n := by
  have hsplit := List.take_append_drop n content
  rw [← hsplit, List.pairwise_append] at hc
  obtain ⟨hpage, -, hacross⟩ := hc
  have hlast : last ∈ content.take n := List.mem_of_getLast? h
  have hbefore : behind (content.take n) last.rowid = [] := by
    rw [behind, List.filter_eq_nil_iff]
    intro r hr
    obtain ⟨init, hinit⟩ := List.getLast?_eq_some_iff.mp h
    rw [hinit] at hr hpage
    simp only [decide_eq_true_eq, Int64.not_lt]
    rcases List.mem_append.mp hr with hr | hr
    · exact Int64.le_of_lt ((List.pairwise_append.mp hpage).2.2 r hr last (by simp))
    · rw [List.mem_singleton.mp hr]
      exact Int64.le_refl _
  have hafter : behind (content.drop n) last.rowid = content.drop n := by
    rw [behind, List.filter_eq_self]
    intro r hr
    exact decide_eq_true (hacross last hlast r hr)
  calc behind content last.rowid
      = behind (content.take n) last.rowid ++ behind (content.drop n) last.rowid := by
        rw [behind, behind, behind, ← List.filter_append, hsplit]
    _ = content.drop n := by rw [hbefore, hafter, List.nil_append]

/-- Rows behind a later rowid are found among those behind an earlier one. -/
theorem behind_behind {content : List StoredRow} {i j : Int64} (h : i ≤ j) :
    behind (behind content i) j = behind content j := by
  rw [behind, behind, behind, List.filter_filter]
  refine List.filter_congr fun r _ => ?_
  by_cases hj : j < r.rowid
  · simp [hj, Int64.lt_of_le_of_lt h hj]
  · simp [hj]

/-- The last row of a page is behind its start, and what comes behind that row is the rest. -/
theorem behind_page {content : List StoredRow}
    (hc : content.Pairwise fun r r' => r.rowid < r'.rowid) {notBefore : Int64}
    {n : Nat} {last : StoredRow} (h : ((behind content notBefore).take n).getLast? = some last) :
    notBefore < last.rowid ∧ behind content last.rowid = (behind content notBefore).drop n := by
  have hmem : last ∈ behind content notBefore := List.mem_of_mem_take (List.mem_of_getLast? h)
  have hbefore : notBefore < last.rowid := of_decide_eq_true (List.mem_filter.mp hmem).2
  have hrising : (behind content notBefore).Pairwise fun r r' => r.rowid < r'.rowid := hc.filter _
  refine ⟨hbefore, ?_⟩
  rw [← behind_getLast hrising h, behind_behind (Int64.le_of_lt hbefore)]

theorem lastRowid_shown (page : List StoredRow) :
    Table.lastRowid? (page.map shown) = page.getLast?.map StoredRow.rowid := by
  rw [Table.lastRowid?, List.getLast?_map]
  cases page.getLast? <;> rfl

variable {σ ρ : Type} {E : Engine.Interface σ} {t : Table ρ} {text : String} {names : List String}
  {content : List StoredRow} {holds : σ → Prop}

/-- A page that is answered is handed out, and the walk goes on behind its last row; after an empty
page it is over. -/
theorem pages_of_run (t : Table ρ) {limit notBefore : Int64} {params : Params}
    (hparams : params.push Table.pageStart (.integer notBefore) = pageParams limit notBefore)
    {page : List StoredRow} {changes : Nat} {s s' : σ}
    (hrun : E.run text (pageParams limit notBefore) s = (.ok ⟨page.map shown, changes⟩, s'))
    (wants : Demand ρ) (fuel : Nat) (rows : List ρ) :
    t.pages E text names params wants (fuel + 1) notBefore rows s =
      let emitted := handOut (t.decodePaged names) wants rows (page.map shown)
      match emitted.ending, page.getLast? with
      | .finished, some last =>
        t.pages E text names (pageParams limit notBefore) wants fuel last.rowid emitted.rows s'
      | _, _ => (emitted, s') := by
  rw [Table.pages]
  dsimp only
  rw [hparams, Engine.Interface.running, hrun]
  dsimp only [except_mapError_ok]
  rw [lastRowid_shown]
  generalize handOut (t.decodePaged names) wants rows _ = emitted
  obtain ⟨given, ending⟩ := emitted
  cases page.getLast? <;> cases ending <;> rfl

def pageShape : Shape :=
  .select ⟨.rowidAndAll, false, .raw "rowid > :not_before" [Table.pageStart],
    [("rowid", .ascending)], true⟩

theorem statementText_pageShape (s : Schema) (table : TableName) :
    s.statementText table pageShape = .ok (pageText table) := by
  have hshape : Statement.ofShape s table pageShape =
      .ok (.select table .rowidAndAll false (.clause "rowid > :not_before")
        [("rowid", .ascending)] true) :=
    rfl
  have hhead : "SELECT " ++ keywordIf false "DISTINCT" ++ Selected.rowidAndAll.text ++ " FROM " =
      "SELECT rowid, * FROM " := by decide
  rw [Schema.statementText, hshape]
  exact congrArg (fun head => Except.ok (head ++ table.text ++ " WHERE rowid > :not_before" ++
    " ORDER BY rowid ASC" ++ " LIMIT :__limit")) hhead

def pageLimit (size : UInt64) : Int64 := Int64.ofNat (min size.toNat (2 ^ 63 - 1))

theorem pageLimit_pos {size : UInt64} (h : size ≠ 0) : 0 < pageLimit size := by
  have hsize : size.toNat ≠ 0 := fun h0 => h (UInt64.toNat_inj.mp h0)
  rw [Int64.lt_iff_toInt_lt, pageLimit, Int64.toInt_ofNat_of_lt (by omega), Int64.toInt_zero]
  omega

/-- The walk that is left over once its statement is built. -/
def walk (t : Table ρ) (E : Engine.Interface σ) (size : UInt64) : RowJob σ ρ := fun wants s =>
  match E.preparing (pageText t.name) s with
  | (.error e, s) => (.failure e, s)
  | (.ok names, s) =>
    t.pages E (pageText t.name) names
      (Params.empty.push limitPlaceholder (.integer (pageLimit size))) wants
      Table.pageBound 0 [] s

/-- Pages of a positive size are always built, whatever was asked for before. -/
theorem selectPaginated_requested (t : Table ρ) (E : Engine.Interface σ)
    {size : UInt64} (h : size ≠ 0) (earlier : List Shape) :
    (t.selectPaginated E size (t.newCache.requested earlier)).1 = .ok (walk t E size) := by
  have hstatement := Table.statement_requested t.schema t.name earlier pageShape
  rw [statementText_pageShape] at hstatement
  rw [Table.selectPaginated, if_neg h]
  rw [Table.building_bind_eq_ok]
  refine ⟨(pageText t.name, Params.empty.push limitPlaceholder (.integer (pageLimit size))), ?_,
    rfl⟩
  rw [Table.selection, Table.building_bind_eq_ok]
  exact ⟨pageText t.name, hstatement, rfl⟩

/-- The rows behind a rowid are all rows exactly if each one is behind it. -/
theorem length_behind {notBefore : Int64} :
    (behind content notBefore).length = content.length ↔ ∀ r ∈ content, notBefore < r.rowid := by
  rw [behind, List.length_filter_eq_length_iff]
  simp only [decide_eq_true_eq]

end Paging

end TypedTables
