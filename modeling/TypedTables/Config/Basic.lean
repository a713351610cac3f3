import TypedTables.Duration

/-!
# Configuration

How a connection is opened and how large a pool of workers is.
-/
namespace TypedTables

structure ConnectOptions where
  path : String
  /-- Write-ahead logging, with fewer synchronisations. -/
  wal : Bool
  /-- How long a locked database is waited for. -/
  busyTimeout : Option Duration
  foreignKeys : Bool
  /-- Temporary tables are kept in memory. -/
  temporaryInMemory : Bool
  /-- The greatest number of bytes that are mapped into memory. -/
  mapSize : Option UInt64
  readOnly : Bool
  deriving DecidableEq

/-- The options with which a path is opened when nothing else is asked for. -/
def ConnectOptions.of (path : String) : ConnectOptions :=
  ⟨path, false, none, false, false, none, false⟩

structure PoolOptions where
  workers : UInt64
  threadPrefix : String
  /-- How long a job may wait for a worker. -/
  acquireTimeout : Option Duration
  deriving DecidableEq

namespace PoolOptions

/-- The names of workers start like this when nothing else is asked for. -/
def defaultThreadPrefix : String := "tablespec-worker"

/-- A pool with so many workers, but at least one. -/
def of (workers : UInt64) : PoolOptions := ⟨max workers 1, defaultThreadPrefix, none⟩

end PoolOptions

end TypedTables
