import TypedTables.Engine.Interface
import TypedTables.Error

/-!
# Jobs

A job is work for a connection: it has one result, or it hands out rows one after the other for as
long as its consumer wants more. Where a job runs is decided elsewhere.
-/
namespace TypedTables

abbrev Job (σ α : Type) := ExceptT Error (StateM σ) α

abbrev Demand (ρ : Type) := List ρ → Bool

inductive Ending where
  /-- There are no more rows. -/
  | finished
  /-- The consumer wants no more. -/
  | stopped
  | failed (e : Error)
  /-- The bound on the number of pages was reached. -/
  | cut
  deriving DecidableEq

structure Emitted (ρ : Type) where
  rows : List ρ
  ending : Ending

abbrev RowJob (σ ρ : Type) := Demand ρ → σ → Emitted ρ × σ

def wantsAll {ρ : Type} : Demand ρ := fun _ => true

def wantsUpTo {ρ : Type} (n : Nat) : Demand ρ := fun rows => rows.length < n

namespace Ending

def toExcept : Ending → Except Error Unit
  | .failed e => .error e
  | _ => .ok ()

end Ending

namespace Emitted

variable {ρ : Type}

def collect (e : Emitted ρ) : Except Error (List ρ) := e.ending.toExcept.map fun _ => e.rows

/-- The handing out that failed before the first row. -/
def failure (e : Error) : Emitted ρ := ⟨[], .failed e⟩

end Emitted

/-- Hands out rows after those that were handed out before. -/
def handOut {α ρ : Type} (decode : α → Except Error ρ) (wants : Demand ρ) :
    List ρ → List α → Emitted ρ
  | rows, [] => ⟨rows, .finished⟩
  | rows, a :: as =>
    match decode a with
    | .error e => ⟨rows, .failed e⟩
    | .ok r => if wants (rows ++ [r]) then handOut decode wants (rows ++ [r]) as
      else ⟨rows ++ [r], .stopped⟩

namespace Engine.Interface

variable {σ : Type} (E : Interface σ)

def preparing (text : String) : Job σ (List String) := fun s =>
  let (r, s) := E.prepare text s
  (r.mapError (.refused text), s)

/-- Runs a statement of a table that was prepared. -/
def running (text : String) (params : Params) : Job σ Answer := fun s =>
  let (r, s) := E.run text params s
  (r.mapError (.refused text), s)

/-- Runs a statement that belongs to no table. -/
def control (text : String) : Job σ Unit := fun s =>
  let (r, s) := E.run text .empty s
  ((r.map fun _ => ()).mapError .engine, s)

/-- Runs a statement; answers how many rows it changed. -/
def change (text : String) (params : Params) : Job σ Nat := do
  let _ ← E.preparing text
  let answer ← E.running text params
  return answer.changes

/-- Hands out the rows that a statement answers. `decode` is given the names of the columns. -/
def rows {ρ : Type} (text : String) (params : Params)
    (decode : List String → List Stored → Except Error ρ) : RowJob σ ρ := fun wants s =>
  match E.preparing text s with
  | (.error e, s) => (.failure e, s)
  | (.ok names, s) =>
    match E.running text params s with
    | (.error e, s) => (.failure e, s)
    | (.ok answer, s) => (handOut (decode names) wants [] answer.rows, s)

/-- The integer in the first column of the first row that a statement answers. -/
def integer (text : String) (params : Params) : Job σ Int64 := do
  let names ← E.preparing text
  let answer ← E.running text params
  let first : Option Stored := answer.rows.head?.map fun row => row.head?.getD .null
  match first with
  | none => throw (.refused text .noRows)
  | some (.integer i) => return i
  | some v => throw (.refused text (.columnType v.storageClass 0 (names.head?.getD "")))

end Engine.Interface

end TypedTables
