import TypedTables.Table.Basic

/-!
# Running operations on the spot

The simplest way to run an operation: build it, and run the job that is left over on a connection at
hand. The rows of a job are collected, and an error leaves none of them.
-/
namespace TypedTables

structure Session (σ : Type) where
  statements : StatementCache
  connection : σ

namespace Building

variable {σ α ρ : Type}

def build (b : Building α) : ExceptT Error (StateM (Session σ)) α := fun s =>
  let (r, statements) := b s.statements
  (r, { s with statements })

def runJob (job : Job σ α) : ExceptT Error (StateM (Session σ)) α := fun s =>
  let (r, connection) := job s.connection
  (r, { s with connection })

def runDirect (b : Building (Job σ α)) : ExceptT Error (StateM (Session σ)) α := do
  let job ← b.build
  runJob job

/-- Runs an operation that hands out rows, for a consumer; the error that ended it is kept aside. -/
def handOutDirect (b : Building (RowJob σ ρ)) (wants : Demand ρ) :
    ExceptT Error (StateM (Session σ)) (Emitted ρ) := do
  let job ← b.build
  runJob fun s =>
    let (emitted, s) := job wants s
    (.ok emitted, s)

/-- Runs an operation that hands out rows and collects all of them. -/
def collectDirect (b : Building (RowJob σ ρ)) : ExceptT Error (StateM (Session σ)) (List ρ) := do
  let emitted ← b.handOutDirect wantsAll
  match emitted.collect with
  | .ok rows => return rows
  | .error e => throw e

end Building

end TypedTables
