import TypedTables.Engine.Fault
import TypedTables.Record.Params

/-!
# What a table asks of an engine

The operations on a table reach the engine through three functions. Statements are texts;
transactions are begun and ended by statements like any other.
-/
namespace TypedTables.Engine

/-- What a statement answers: rows, and how many stored rows it changed. -/
structure Answer where
  rows : List (List Stored)
  changes : Nat
  deriving DecidableEq

def Answer.changed (n : Nat) : Answer := ⟨[], n⟩

structure Interface (σ : Type) where
  /-- The names of the columns that a statement answers. -/
  prepare : String → σ → Except Fault (List String) × σ
  /-- Runs a statement to its end. -/
  run : String → Params → σ → Except Fault Answer × σ
  /-- Whether a transaction is open. -/
  inTransaction : σ → Bool

end TypedTables.Engine
