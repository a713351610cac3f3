import TypedTables.Config.Basic
import TypedTables.Json.Decode
import TypedTables.Json.Printer
import TypedTables.Statement.Shape

/-!
# Configuration as JSON

Every type of the configuration is written as a JSON object and read back, from an object or from
the array of its fields. Durations are whole milliseconds.
-/
namespace TypedTables

namespace Json

def natural (n : UInt64) : Tree := .number (.whole ⟨n.toNat, by have := n.toNat_lt; omega⟩)

def orNull {α : Type} (f : α → Tree) : Option α → Tree
  | some a => f a
  | none => .null

def millis (d : Duration) : Tree := natural (UInt64.ofNat d.toMillis)

def readNatural64 (expected : String) : Reader UInt64 := fun cs =>
  (readNatural expected cs).map fun (n, rest) => (UInt64.ofNat n, rest)

def readMillis : Reader (Option Duration) := fun cs =>
  (readOption (readNatural "u64") cs).map fun (n, rest) => (n.map Duration.ofMillis, rest)

end Json

open Json (Tree Field RecordShape readBool readString readOption readNatural64 readMillis readList
  readPair readWord)

namespace ConnectOptions

def toJson (o : ConnectOptions) : Tree := .object [
  ("db_path", .string o.path), ("wal", .bool o.wal),
  ("busy_timeout", Json.orNull Json.millis o.busyTimeout), ("foreign_keys", .bool o.foreignKeys),
  ("temp_store_memory", .bool o.temporaryInMemory),
  ("mmap_size", Json.orNull Json.natural o.mapSize), ("read_only", .bool o.readOnly)]

def shape : RecordShape ConnectOptions where
  name := "struct ConnectOptions"
  start := .of ""
  fields := [
    .must "db_path" readString fun a o => { o with path := a },
    .may "wal" readBool fun a o => { o with wal := a },
    .may "busy_timeout" readMillis fun a o => { o with busyTimeout := a },
    .may "foreign_keys" readBool fun a o => { o with foreignKeys := a },
    .may "temp_store_memory" readBool fun a o => { o with temporaryInMemory := a },
    .may "mmap_size" (readOption (readNatural64 "u64")) fun a o => { o with mapSize := a },
    .may "read_only" readBool fun a o => { o with readOnly := a }]

end ConnectOptions

namespace PoolOptions

def toJson (o : PoolOptions) : Tree := .object [
  ("workers", Json.natural o.workers), ("thread_name_prefix", .string o.threadPrefix),
  ("acquire_timeout", Json.orNull Json.millis o.acquireTimeout)]

def shape : RecordShape PoolOptions where
  name := "struct PoolOptions"
  start := ⟨0, defaultThreadPrefix, none⟩
  fields := [
    .must "workers" (readNatural64 "usize") fun a o => { o with workers := a },
    .may "thread_name_prefix" readString fun a o => { o with threadPrefix := a },
    .may "acquire_timeout" readMillis fun a o => { o with acquireTimeout := a }]

end PoolOptions

namespace Conflict

def words : List (String × Conflict) :=
  [("abort", .abort), ("fail", .fail), ("ignore", .ignore), ("replace", .replace),
    ("rollback", .rollback)]

def word : Conflict → String
  | .abort => "abort"
  | .fail => "fail"
  | .ignore => "ignore"
  | .replace => "replace"
  | .rollback => "rollback"

def toJson (c : Conflict) : Tree := .string c.word

end Conflict

namespace Direction

def words : List (String × Direction) := [("asc", .ascending), ("desc", .descending)]

def word : Direction → String
  | .ascending => "asc"
  | .descending => "desc"

def toJson (d : Direction) : Tree := .string d.word

end Direction

namespace TableOptions

def toJson (o : TableOptions) : Tree := .object [
  ("temporary", .bool o.temporary), ("if_not_exists", .bool o.ifNotExists),
  ("without_rowid", .bool o.withoutRowid), ("strict", .bool o.strict)]

def shape : RecordShape TableOptions where
  name := "struct CreateTableOptions"
  start := .none
  fields := [
    .may "temporary" readBool fun a o => { o with temporary := a },
    .may "if_not_exists" readBool fun a o => { o with ifNotExists := a },
    .may "without_rowid" readBool fun a o => { o with withoutRowid := a },
    .may "strict" readBool fun a o => { o with strict := a }]

end TableOptions

namespace IndexShape

def toJson (i : IndexShape) : Tree := .object [
  ("name", .string i.name),
  ("columns", .array (i.columns.map fun (name, d) =>
    .array [.string name, Json.orNull Direction.toJson d])),
  ("unique", .bool i.unique), ("if_not_exists", .bool i.ifNotExists)]

def shape : RecordShape IndexShape where
  name := "struct IndexSpec"
  start := ⟨"", [], false, false⟩
  fields := [
    .must "name" readString fun a i => { i with name := a },
    .must "columns" (readList (readPair readString (readOption (readWord Direction.words))))
      fun a i => { i with columns := a },
    .may "unique" readBool fun a i => { i with unique := a },
    .may "if_not_exists" readBool fun a i => { i with ifNotExists := a }]

end IndexShape

namespace Bootstrap

def toJson (b : Bootstrap) : Tree := .object [
  ("table_name", .string b.tableName), ("create_table", b.table.toJson),
  ("indexes", .array (b.indexes.map IndexShape.toJson))]

def shape : RecordShape Bootstrap where
  name := "struct TableBootstrap"
  start := ⟨"", .none, []⟩
  fields := [
    .must "table_name" readString fun a b => { b with tableName := a },
    .may "create_table" TableOptions.shape.read fun a b => { b with table := a },
    .may "indexes" (readList IndexShape.shape.read) fun a b => { b with indexes := a }]

end Bootstrap

end TypedTables
