import TypedTables.Engine.Plan

/-!
# Queries

The rows of a query: those of the table that satisfy the condition, in their order, or from the last
to the first if the key of the table is asked for in falling order; then each result once if only
distinct ones are asked for, sorted stably by the keys, and cut off at the limit.
-/
namespace TypedTables.Engine

/-- The items whose values equal neither those of an earlier item nor values seen before. -/
def distinctBy {α : Type} (collations : List Collation) (values : α → List Stored) :
    List (List Stored) → List α → List α
  | _, [] => []
  | seen, a :: as =>
    if seen.any fun s => StoredTable.compareLists collations s (values a) == .eq then
      distinctBy collations values seen as
    else a :: distinctBy collations values (values a :: seen) as

/-- How two lists of key values compare, each in its direction. -/
def compareKeys : List (Direction × Collation) → List Stored → List Stored → Ordering
  | (d, k) :: ds, a :: as, b :: bs =>
    match k.compare a b, d with
    | .eq, _ => compareKeys ds as bs
    | o, .ascending => o
    | o, .descending => o.swap
  | _, _, _ => .eq

def valuesOf (params : String → Stored) (outputs : List NamedOutput) (count : Nat)
    (cells : List Stored) :
    List Stored :=
  outputs.map fun o =>
    match o.output with
    | .value e => e.eval params cells
    | .count => .integer (Int64.ofNat count)

namespace Query

def collations (q : Query) : List Collation :=
  q.outputs.map fun o =>
    match o.output with
    | .value e => e.collation
    | .count => .binary

def counts (q : Query) : Bool := q.outputs.any (·.output == .count)

/-- Whether a sort key asks for falling values of the column at a position. -/
def isFalling (position : Nat) (k : SortKey Slot) : Bool :=
  match k.key, k.direction with
  | .column s, .descending => s.position == position
  | _, _ => false

/-- Whether the rows of the table are read from the last to the first. -/
def readsBackwards (q : Query) (t : StoredTable) : Bool :=
  !q.orderBy.isEmpty && (t.keyPositions.zip q.orderBy).all fun (i, k) => isFalling i k

/-- The rows that satisfy the condition. -/
def chosen (q : Query) (t : Option StoredTable) (params : String → Stored) : List (List Stored) :=
  let all := match t with
    | none => [[]]
    | some t => (if q.readsBackwards t then t.rows.reverse else t.rows).map StoredRow.cells
  match q.condition with
  | none => all
  | some e => all.filter (e.holds params)

/-- The results before the limit. -/
def results (q : Query) (t : Option StoredTable) (params : String → Stored) : List (List Stored) :=
  let cells := q.chosen t params
  if q.counts then [valuesOf params q.outputs cells.length (cells.getLast?.getD [])]
  else
    let results := cells.map fun c =>
      (valuesOf params q.outputs 0 c, q.orderBy.map fun k => k.key.eval params c)
    let results := if q.distinct then distinctBy q.collations (·.1) [] results else results
    let directions := q.orderBy.map fun k => (k.direction, k.key.collation)
    let sorted :=
      if q.orderBy.isEmpty then results
      else results.mergeSort fun a b => compareKeys directions a.2 b.2 != .gt
    sorted.map (·.1)

/-- The number of rows that a limit leaves; a negative one leaves all. -/
def limited (rows : List (List Stored)) (limit : Stored) : Except Fault (List (List Stored)) :=
  match rowidOf? limit with
  | some n => .ok (if n < 0 then rows else rows.take n.toInt.toNat)
  | none => .error .datatypeMismatch

def rows (q : Query) (t : Option StoredTable) (params : String → Stored) :
    Except Fault (List (List Stored)) :=
  match q.limit with
  | none => .ok (q.results t params)
  | some e => limited (q.results t params) (e.eval params [])

end Query

end TypedTables.Engine
