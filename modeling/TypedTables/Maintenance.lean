import TypedTables.Config.Basic
import TypedTables.Engine.Connection
import TypedTables.Error
import TypedTables.Text.Identifier

/-!
# Opening and maintaining a database

How a connection is opened with its options, and what is asked of a connection besides statements on
tables: settings, attached databases, and the catalog.
-/
namespace TypedTables

attribute [local instance (high)] instPowNat

open Engine (Connection Database)

namespace Engine.Connection

def setting (c : Connection) (name : String) (v : Stored) : Except Error Unit × Connection :=
  match c.pragma name (some v) with
  | (.ok _, c) => (.ok (), c)
  | (.error fault, c) => (.error (.engine fault), c)

/-- Write-ahead logging, with fewer synchronisations. A database in memory keeps its own way. -/
def enableWal (c : Connection) : Except Error Unit × Connection :=
  match c.setting "journal_mode" (.text "WAL") with
  | (.ok _, c) => c.setting "synchronous" (.text "NORMAL")
  | (.error e, c) => (.error e, c)

def storeTemporaryInMemory (c : Connection) : Except Error Unit × Connection :=
  c.setting "temp_store" (.text "MEMORY")

def greatestInteger : Nat := 2 ^ (63 : Nat) - 1

/-- Maps a number of bytes into memory, as far as that is possible. -/
def enableMap (c : Connection) (size : UInt64) : Except Error Unit × Connection :=
  c.setting "mmap_size" (.integer (Int64.ofNat (min size.toNat greatestInteger)))

/-- Lets the engine tidy up its statistics. -/
def optimize (c : Connection) : Except Error Unit × Connection :=
  match c.runBatch "PRAGMA optimize;" with
  | (.ok _, c) => (.ok (), c)
  | (.error fault, c) => (.error (.engine fault), c)

def checkIntegrity (c : Connection) (table : Option String) : Except Error Bool :=
  let check (text : String) : Except Error Bool :=
    match (c.run text .empty).1 with
    | .ok answer => .ok (answer.rows == [[.text "ok"]])
    | .error fault => .error (.engine fault)
  match table with
  | some name =>
    if Text.isIdentifier name then check ("PRAGMA integrity_check(" ++ name ++ ")")
    else .error (.schema (.tableName name))
  | none => check "PRAGMA integrity_check"

/-- Whether the main database has a table with exactly this name. -/
def hasTable (c : Connection) (name : String) : Bool :=
  (c.catalog.database 0).tables.any (·.name == name)

/-- Attaches a new database in memory; answers its name. -/
def attachDatabase (c : Connection) (name : String) : Except Error String × Connection :=
  if Text.isIdentifier name then
    match c.attach name with
    | (.ok _, c) => (.ok name, c)
    | (.error fault, c) => (.error (.engine fault), c)
  else (.error (.schema (.databaseName name)), c)

/-- Whether a character may stand in the name of a setting. -/
def isKeywordStart (c : Char) : Bool := c.isAlpha || c == '_' || 0x7f < c.toNat

/-- Whether a text may stand as the name of a setting. -/
def isKeyword (s : String) : Bool :=
  match s.toList with
  | c :: cs => isKeywordStart c && cs.all fun c => isKeywordStart c || c.isDigit || c == '$'
  | [] => false

def readSetting (c : Connection) (name : String) : Except Error Stored :=
  if isKeyword name then
    match (c.run ("PRAGMA " ++ name) .empty).1 with
    | .ok answer =>
      ((answer.rows.head?.bind List.head?).map Except.ok).getD (.error (.engine .noRows))
    | .error fault => .error (.engine fault)
  else .error (.engine (.invalidKeyword name))

/-- The options with which the engine was built: a name, and a value if there is one. -/
def buildOptions : List (String × Option String) := [
  ("ATOMIC_INTRINSICS", some "1"), ("DEFAULT_AUTOVACUUM", none),
    ("DEFAULT_CACHE_SIZE", some "-2000"),
  ("DEFAULT_FILE_FORMAT", some "4"), ("DEFAULT_FOREIGN_KEYS", none),
  ("DEFAULT_JOURNAL_SIZE_LIMIT", some "-1"), ("DEFAULT_MMAP_SIZE", some "0"),
  ("DEFAULT_PAGE_SIZE", some "4096"), ("DEFAULT_PCACHE_INITSZ", some "20"),
  ("DEFAULT_RECURSIVE_TRIGGERS", none), ("DEFAULT_SECTOR_SIZE", some "4096"),
  ("DEFAULT_SYNCHRONOUS", some "2"), ("DEFAULT_WAL_AUTOCHECKPOINT", some "1000"),
  ("DEFAULT_WAL_SYNCHRONOUS", some "2"), ("DEFAULT_WORKER_THREADS", some "0"),
  ("DIRECT_OVERFLOW_READ", none), ("ENABLE_API_ARMOR", none), ("ENABLE_COLUMN_METADATA", none),
  ("ENABLE_DBSTAT_VTAB", none), ("ENABLE_FTS3", none), ("ENABLE_FTS3_PARENTHESIS", none),
  ("ENABLE_FTS5", none), ("ENABLE_LOAD_EXTENSION", none), ("ENABLE_MEMORY_MANAGEMENT", none),
  ("ENABLE_RTREE", none), ("ENABLE_STAT4", none), ("HAVE_ISNAN", none),
    ("MALLOC_SOFT_LIMIT", some "1024"),
  ("MAX_ATTACHED", some "10"), ("MAX_COLUMN", some "2000"), ("MAX_COMPOUND_SELECT", some "500"),
  ("MAX_DEFAULT_PAGE_SIZE", some "8192"), ("MAX_EXPR_DEPTH", some "1000"),
  ("MAX_FUNCTION_ARG", some "127"), ("MAX_LENGTH", some "1000000000"),
  ("MAX_LIKE_PATTERN_LENGTH", some "50000"), ("MAX_MMAP_SIZE", some "0x7fff0000"),
  ("MAX_PAGE_COUNT", some "0xfffffffe"), ("MAX_PAGE_SIZE", some "65536"),
  ("MAX_SQL_LENGTH", some "1000000000"), ("MAX_TRIGGER_DEPTH", some "1000"),
  ("MAX_VARIABLE_NUMBER", some "32766"), ("MAX_VDBE_OP", some "250000000"),
  ("MAX_WORKER_THREADS", some "8"), ("MUTEX_PTHREADS", none), ("SOUNDEX", none),
  ("SYSTEM_MALLOC", none), ("TEMP_STORE", some "1"), ("THREADSAFE", some "1"), ("USE_URI", none)]

end Engine.Connection

structure Files where
  directories : List String
  databases : List (String × Database)

namespace Files

/-- The directory of a path; none has an empty path. -/
def directoryOf (path : String) : String :=
  String.ofList ((path.toList.reverse.dropWhile (· ≠ '/')).drop 1).reverse

/-- The database at a path; a missing one is made unless it is only to be read. -/
def database? (files : Files) (path : String) (readOnly : Bool) : Option Database :=
  match files.databases.find? (·.1 == path) with
  | some (_, d) => some d
  | none =>
    if readOnly || files.directories.contains path then none
    else if files.directories.contains (directoryOf path) then some .empty
    else none

end Files

/-- Applies a step to a connection unless an earlier one failed. -/
def andThen (asked : Bool) (step : Connection → Except Error Unit × Connection)
    (c : Except Error Connection) : Except Error Connection :=
  match c with
  | .error e => .error e
  | .ok c =>
    if asked then
      match step c with
      | (.ok _, c) => .ok c
      | (.error e, _) => .error e
    else .ok c

namespace ConnectOptions

def inMemory (o : ConnectOptions) : Bool := o.path == ":memory:"

/-- The connection before any setting is changed. -/
def connect (o : ConnectOptions) (files : Files) : Except Error Connection :=
  if o.inMemory then .ok (.new .empty .memory o.readOnly)
  else if o.path.isEmpty then .ok (.new .empty .temporary o.readOnly)
  else
    match files.database? o.path o.readOnly with
    | some d => .ok (.new d .file o.readOnly)
    | none => .error (.cannotOpen o.path (.cannotOpen o.path))

def «open» (o : ConnectOptions) (files : Files) : Except Error Connection :=
  let set (name : String) (v : Stored) (c : Connection) := c.setting name v
  o.connect files
    |> andThen o.busyTimeout.isSome (set "busy_timeout"
        (.integer (Int64.ofNat ((o.busyTimeout.map Duration.toMillis).getD 0))))
    |> andThen o.wal Engine.Connection.enableWal
    |> andThen o.foreignKeys (set "foreign_keys" (.integer 1))
    |> andThen o.temporaryInMemory Engine.Connection.storeTemporaryInMemory
    |> andThen o.mapSize.isSome (fun c => c.enableMap (o.mapSize.getD 0))

end ConnectOptions

end TypedTables
