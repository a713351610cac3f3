import TypedTables.Table.Insert

/-!
# Selecting

Rows are handed out one after the other. A table can be walked in pages, each of which starts behind
the last rowid of the one before.
-/
namespace TypedTables

attribute [local instance (high)] instPowNat

namespace Table

variable {σ ρ : Type} (t : Table ρ) (E : Engine.Interface σ)

def select (f : Filter) (o : SelectOptions) : Building (RowJob σ ρ) := do
  let (text, params) ← t.filtered (.columns .all) f o
  return E.rows text params (t.decodeRecords 0)

def firstOf (job : RowJob σ ρ) : Job σ (Option ρ) := fun s =>
  let (emitted, s) := job (fun _ => false) s
  (emitted.ending.toExcept.map fun _ => emitted.rows.head?, s)

def selectOne (f : Filter) (o : SelectOptions) : Building (Job σ (Option ρ)) := do
  let (text, params) ← t.filtered (.columns .all) f { o with limit := some 1 }
  return firstOf (E.rows text params (t.decodeRecords 0))

/-- Hands out some columns of the rows that a filter chooses. -/
def selectRows (columns : List String) (f : Filter) (o : SelectOptions) :
    Building (RowJob σ Row) := do
  let columns ← checked (t.schema.ordered columns)
  let (text, params) ← t.filtered (.columns (.only columns)) f o
  return E.rows text params t.decodeRows

def deleteReturning (f : Filter) : Building (RowJob σ ρ) := do
  let (predicate, params) ← checked (f.compile t.schema "")
  let text ← statement (.delete ⟨predicate, some .all⟩)
  return E.rows text params (t.decodeRecords 0)

def countStatement (f : Filter) : Building (String × Params) := t.filtered .count f .none

def count (f : Filter) : Building (Job σ Nat) := do
  let (text, params) ← t.countStatement f
  return (do
    let n ← E.integer text params
    return n.toInt.toNat : Job σ Nat)

def «exists» (f : Filter) : Building (Job σ Bool) := do
  let (text, params) ← t.countStatement f
  return (do
    let n ← E.integer text params
    return decide (0 < n) : Job σ Bool)

def pageStart : String := "not_before"

/-- Reads a result row of a page: the rowid, which is no part of the record, comes first. -/
def decodePaged (names : List String) (values : List Stored) : Except Error ρ :=
  match values.head?.getD .null with
  | .integer _ => t.decodeRecords 1 names values
  | v => .error (.engine (.columnType v.storageClass 0 (names.head?.getD "")))

def lastRowid? (rows : List (List Stored)) : Option Int64 :=
  match rows.getLast?.bind List.head? with
  | some (.integer i) => some i
  | _ => none

/-- Hands out the records of at most so many pages, the first of which starts behind `notBefore`. -/
def pages (text : String) (names : List String) (params : Params) (wants : Demand ρ) :
    Nat → Int64 → List ρ → σ → Emitted ρ × σ
  | 0, _, rows, s => (⟨rows, .cut⟩, s)
  | n + 1, notBefore, rows, s =>
    let params := params.push pageStart (.integer notBefore)
    match E.running text params s with
    | (.error e, s) => (⟨rows, .failed e⟩, s)
    | (.ok answer, s) =>
      let emitted := handOut (t.decodePaged names) wants rows answer.rows
      match emitted.ending, lastRowid? answer.rows with
      | .finished, some rowid => pages text names params wants n rowid emitted.rows s
      | _, _ => (emitted, s)

/-- More pages than there can be: each one starts behind another rowid. -/
def pageBound : Nat := 2 ^ (64 : Nat)

/-- Hands out every record, in pages of the given size. -/
def selectPaginated (size : UInt64) : Building (RowJob σ ρ) :=
  if size = 0 then throw (.statement .zeroBatchSize)
  else do
    let options : SelectOptions := ⟨[("rowid", .ascending)], some size, false⟩
    let (text, params) ←
      selection .rowidAndAll (.raw "rowid > :not_before" [pageStart]) options .empty
    return fun wants s =>
      match E.preparing text s with
      | (.error e, s) => (.failure e, s)
      | (.ok names, s) => t.pages E text names params wants pageBound 0 [] s

end Table

end TypedTables
