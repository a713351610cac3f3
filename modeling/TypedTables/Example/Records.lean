import TypedTables.Example.Codecs
import TypedTables.Record.Basic

/-!
# Example record types

Record types with fields of their own, and record types whose records are rows.
-/
namespace TypedTables.Example

inductive Level where
  | low
  | high
  deriving DecidableEq, Repr

instance : IntEnum Level where
  variants := [.low, .high]
  toInt
    | .low => 1
    | .high => 2

inductive Color where
  | red
  | green
  deriving DecidableEq, Repr

instance : StrEnum Color where
  variants := [.red, .green]
  toText
    | .red => "red"
    | .green => "green"

def intEnumType (α : Type) [IntEnum α] : FieldType :=
  .intEnum ((IntEnum.variants (α := α)).map IntEnum.toInt)

def strEnumType (α : Type) [StrEnum α] : FieldType :=
  .strEnum ((StrEnum.variants (α := α)).map StrEnum.toText)

/-- Runs a reader of rows and drops what is left of the row. -/
def reading {α : Type} (r : Row.Reader α) (row : Row) : Except Error α := (r.run row).1

structure Entry where
  id : Int64
  kind : String
  payload : List UInt8

def entry : RecordType Entry where
  name := "entry"
  declarations := [
    (Declaration.of "id" .integer).constraint "PRIMARY KEY",
    (((Declaration.of "kind" (.strLiteral ["A", "B"])).constraint "NOT NULL").default "'A'")
      |>.constraint "CHECK(kind IN ('A','B'))",
    (Declaration.of "payload" .blob).constraint "NOT NULL"]
  toRow e := .ofList [("id", toValue e.id), ("kind", toValue e.kind),
    ("payload", toValue e.payload)]
  ofRow := reading do
    let id ← Row.take Int64 "id"
    let kind ← Row.take String "kind"
    let payload ← Row.take (List UInt8) "payload"
    pure ⟨id, kind, payload⟩
  validate _ := .ok ()

structure Sample where
  id : Int64
  flag : Bool
  ratio : Binary64
  name : String
  data : Option (List UInt8)
  level : Level
  color : Color
  size : Int64
  mode : String
  created : DateTime
  seen : Option DateTime
  stamp : DateTime
  extra : Json
  x : Binary64
  y : Binary64

/-- The number at a position of a JSON array, zero if there is none. -/
def coordinate (j : Json) (i : Nat) : Binary64 :=
  (((j.items?.getD [])[i]?).bind Json.Tree.real?).getD (Binary64.zero false)

def sample : RecordType Sample where
  name := "sample"
  declarations := [
    (Declaration.of "id" .integer).constraint "PRIMARY KEY",
    Declaration.of "flag" .bool,
    Declaration.of "ratio" .real,
    (Declaration.of "name" .text).constraint "NOT NULL",
    (Declaration.of "data" .blob).optional,
    Declaration.of "level" (intEnumType Level),
    Declaration.of "color" (strEnumType Color),
    Declaration.of "size" (.intLiteral [1, 2, 3]),
    Declaration.of "mode" (.strLiteral ["r", "w"]),
    Declaration.of "created" (.timestamp .iso8601),
    (Declaration.of "seen" (.timestamp .unixInt)).optional,
    Declaration.of "stamp" (.timestamp .unixReal),
    Declaration.of "meta" .json,
    (Declaration.of "at" (.custom point)).withAffinity .blob]
  toRow r :=
    .ofList [
      ("id", toValue r.id), ("flag", toValue r.flag), ("ratio", toValue r.ratio),
      ("name", toValue r.name), ("data", toValue r.data), ("level", .int (IntEnum.toInt r.level)),
      ("color", .text (StrEnum.toText r.color)), ("size", toValue r.size), ("mode", toValue r.mode),
      ("created", toValue r.created), ("seen", toValue r.seen), ("stamp", toValue r.stamp),
      ("meta", toValue r.extra), ("at", .json (pointJson r.x r.y))]
  ofRow := reading do
    let place ← Row.take Json "at"
    let id ← Row.take Int64 "id"
    let flag ← Row.take Bool "flag"
    let ratio ← Row.take Binary64 "ratio"
    let name ← Row.take String "name"
    let data ← Row.take (Option (List UInt8)) "data"
    let level ← Row.takeIntEnum Level "level"
    let color ← Row.takeStrEnum Color "color"
    let size ← Row.take Int64 "size"
    let mode ← Row.take String "mode"
    let created ← Row.take DateTime "created"
    let seen ← Row.take (Option DateTime) "seen"
    let stamp ← Row.take DateTime "stamp"
    let extra ← Row.take Json "meta"
    pure { id, flag, ratio, name, data, level, color, size, mode, created, seen, stamp, extra
           x := coordinate place 0
           y := coordinate place 1 }
  validate r :=
    if r.ratio.isNaN then .error (.validation (.custom "ratio must be a number")) else .ok ()

structure Item where
  id : Int64
  label : Option String
  deriving DecidableEq

/-- Items; their numbers are not negative. -/
def item : RecordType Item where
  name := "item"
  declarations := [Declaration.of "id" .integer, (Declaration.of "label" .text).optional]
  toRow r := .ofList [("id", toValue r.id), ("label", toValue r.label)]
  ofRow := reading do
    let id ← Row.take Int64 "id"
    let label ← Row.take (Option String) "label"
    pure ⟨id, label⟩
  validate r :=
    if r.id < 0 then .error (.validation (.custom "id must be non-negative")) else .ok ()

def ofRows (name : String) (declarations : List Declaration) : RecordType Row where
  name
  declarations
  toRow row := row
  ofRow row := .ok row
  validate _ := .ok ()

def loose : RecordType Row := ofRows "loose" [
  ((Declaration.of "id" .integer).constraint "PRIMARY KEY").optional,
  ((Declaration.of "name" .text).constraint "NOT NULL").constraint "UNIQUE",
  (Declaration.of "score" .real).optional,
  ((Declaration.of "tag" .text).default "'none'").optional]

def keyValue : RecordType Row := ofRows "kv" [
  (Declaration.of "k" .text).constraint "PRIMARY KEY",
  ((Declaration.of "v" (.custom raw)).withAffinity .blob).optional]

def stamped : RecordType Row := ofRows "stamped" [
  Declaration.of "n" .integer,
  (Declaration.of "r" (.timestamp .unixReal)).optional,
  (Declaration.of "i" (.timestamp .unixInt)).optional,
  (Declaration.of "t" (.timestamp .iso8601)).optional]

def defaults : RecordType Row := ofRows "defaults" [
  (Declaration.of "a" .integer).default "7",
  ((Declaration.of "b" .text).default "'x''y'").optional,
  ((Declaration.of "c" .bool).default "1").constraint "CHECK(c IN (0,1))"]

def twice : RecordType Row := ofRows "twice" [Declaration.of "a" .integer, Declaration.of "a" .text]

def noAffinity : RecordType Row := ofRows "no_affinity" [Declaration.of "p" (.custom point)]

def noColumns : RecordType Row := ofRows "no_columns" []

end TypedTables.Example
