import TypedTables.Job

/-!
# Batches

A batch runs one statement once for each of several items, inside a transaction of its own. The
items are encoded one after the other, so a fault in a late one is found after the early ones ran;
whatever fails, the transaction is undone.
-/
namespace TypedTables.Engine.Interface

variable {σ α ι : Type} (E : Interface σ)

/-- Undoes the open transaction, if there is one. -/
def undone (s : σ) : σ := if E.inTransaction s then (E.run "ROLLBACK" .empty s).2 else s

/-- Runs a job inside a transaction, which is undone if the job fails or the end of the transaction
is refused. -/
def transaction (job : Job σ α) : Job σ α := fun s =>
  match E.control "BEGIN DEFERRED" s with
  | (.error e, s) => (.error e, s)
  | (.ok _, s) =>
    match job s with
    | (.error e, s) => (.error e, E.undone s)
    | (.ok a, s) =>
      match E.control "COMMIT" s with
      | (.ok _, s) => (.ok a, s)
      | (.error e, s) => (.error e, E.undone s)

/-- Runs a prepared statement for each item; `changed` is the number of rows changed so far. -/
def forItems (text : String) (encode : ι → Except Error Params) : Nat → List ι → Job σ Nat
  | changed, [] => pure changed
  | changed, i :: is => do
    let params ← (ExceptT.mk (pure (encode i)) : Job σ Params)
    let answer ← E.running text params
    forItems text encode (changed + answer.changes) is

/-- Runs one statement for each item inside a transaction; answers how many rows were changed. -/
def batch (text : String) (encode : ι → Except Error Params) (items : List ι) : Job σ Nat :=
  E.transaction do
    let _ ← E.preparing text
    E.forItems text encode 0 items

end TypedTables.Engine.Interface
