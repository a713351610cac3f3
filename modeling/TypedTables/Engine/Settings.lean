import TypedTables.Engine.Order

/-!
# Settings

The settings of a connection that a PRAGMA reads and changes.
-/
namespace TypedTables.Engine

inductive Storage where
  | memory
  /-- A file that is gone when the connection is closed. -/
  | temporary
  | file
  deriving DecidableEq

structure Settings where
  foreignKeys : Bool
  temporaryStore : Nat
  journal : String
  synchronous : Nat
  busyTimeout : Nat
  queryOnly : Bool
  ignoreChecks : Bool
  mapSize : Nat
  /-- The values of further settings that were changed, the latest first. -/
  others : List (String × Int64)
  deriving DecidableEq

namespace Settings

def new (storage : Storage) : Settings where
  foreignKeys := true
  temporaryStore := 0
  journal := if storage = .memory then "memory" else "delete"
  synchronous := 2
  busyTimeout := 5000
  queryOnly := false
  ignoreChecks := false
  mapSize := 0
  others := []

def greatestMapSize : Nat := 2147418112

/-- The truth value that a setting is given: a number or a word. -/
def truthOf : Stored → Bool
  | .integer i => i != 0
  | .text s => ["on", "yes", "true", "1"].contains (s.map Char.toLower)
  | _ => false

/-- The number that one of several words stands for. -/
def wordOf (words : List (String × Nat)) : Stored → Nat
  | .integer i => i.toInt.toNat
  | .text s => ((words.find? (·.1 == s.map Char.toLower)).map (·.2)).getD 0
  | _ => 0

/-- The settings that may hold any number, with their values at first. -/
def numbers : List (String × Int64) := [
  ("user_version", 0), ("application_id", 0), ("cache_size", -2000), ("analysis_limit", 0),
  ("wal_autocheckpoint", 1000), ("journal_size_limit", -1), ("threads", 0)]

def switches : List (String × Int64) := [
  ("recursive_triggers", 0), ("read_uncommitted", 0), ("defer_foreign_keys", 0),
    ("writable_schema", 0),
  ("reverse_unordered_selects", 0), ("legacy_alter_table", 0), ("cell_size_check", 0),
  ("checkpoint_fullfsync", 0), ("fullfsync", 0), ("full_column_names", 0), ("count_changes", 0),
  ("empty_result_callbacks", 0), ("short_column_names", 1), ("automatic_index", 1),
  ("trusted_schema", 1)]

/-- The settings that nothing here changes. -/
def fixed : List (String × Int64) := [
  ("page_size", 4096), ("auto_vacuum", 0), ("data_version", 1), ("secure_delete", 0),
  ("freelist_count", 0), ("max_page_count", 4294967294), ("hard_heap_limit", 0),
    ("soft_heap_limit", 0)]

/-- The value of a setting; a file is needed for the size of the map. -/
def read? (s : Settings) (storage : Storage) (name : String) : Option Stored :=
  let number (n : Nat) : Option Stored := some (.integer (Int64.ofNat n))
  let truth (b : Bool) : Option Stored := some (.integer (boolInt b))
  match name.map Char.toLower with
  | "foreign_keys" => truth s.foreignKeys
  | "temp_store" => number s.temporaryStore
  | "journal_mode" => some (.text s.journal)
  | "synchronous" => number s.synchronous
  | "busy_timeout" => number s.busyTimeout
  | "query_only" => truth s.queryOnly
  | "ignore_check_constraints" => truth s.ignoreChecks
  | "mmap_size" => if storage = .file then number s.mapSize else none
  | "encoding" => some (.text "UTF-8")
  | "locking_mode" => some (.text "normal")
  | name => ((s.others ++ numbers ++ switches ++ fixed).find? (·.1 == name)).map fun e =>
    .integer e.2

/-- The settings with one of them changed, and whether the new value is answered. -/
def write (s : Settings) (storage : Storage) (name : String) (v : Stored) : Settings × Bool :=
  match name.map Char.toLower with
  | "foreign_keys" => ({ s with foreignKeys := truthOf v }, false)
  | "temp_store" =>
    ({ s with temporaryStore := wordOf [("file", 1), ("memory", 2)] v }, false)
  | "journal_mode" =>
    match v with
    | .text mode =>
      let mode := mode.map Char.toLower
      let kept := match storage with
        | .memory => ["memory", "off"]
        | .temporary => ["delete", "truncate", "persist", "memory", "off"]
        | .file => ["delete", "truncate", "persist", "memory", "wal", "off"]
      (if kept.contains mode then { s with journal := mode } else s, true)
    | _ => (s, true)
  | "synchronous" =>
    ({ s with synchronous := wordOf [("off", 0), ("normal", 1), ("full", 2), ("extra", 3)] v },
      false)
  | "busy_timeout" => ({ s with busyTimeout := wordOf [] v }, true)
  | "query_only" => ({ s with queryOnly := truthOf v }, false)
  | "ignore_check_constraints" => ({ s with ignoreChecks := truthOf v }, false)
  | "mmap_size" => ({ s with mapSize := min (wordOf [] v) greatestMapSize }, storage == .file)
  | name =>
    let value (n : Int64) : Settings := { s with others := (name, n) :: s.others }
    if numbers.any (·.1 == name) then
      (match v with
        | .integer i => value i
        | _ => value 0, name != "user_version" && name != "application_id" && name != "cache_size")
    else if switches.any (·.1 == name) then (value (boolInt (truthOf v)), false)
    else (s, false)

/-- The settings that the file of a database holds. -/
def kept (s : Settings) : String × List (String × Int64) :=
  (s.journal, s.others.filter fun e => e.1 == "user_version" || e.1 == "application_id")

end Settings

end TypedTables.Engine
