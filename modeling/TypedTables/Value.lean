import TypedTables.Calendar.DateTime
import TypedTables.Calendar.Iso
import TypedTables.Calendar.Reading
import TypedTables.Json.Parser
import TypedTables.Json.Printer

/-!
# Values

An application works with values of eight kinds; a database stores five. `toStored` is the form a
value takes when nothing is known about the column, and `ofStored` reads a stored value without a
column. `FromValue` says for each type of the application which values it can be read from.
-/
namespace TypedTables

attribute [local instance (high)] instPowNat

inductive Stored where
  | null
  | integer (i : Int64)
  | real (x : Binary64)
  | text (s : String)
  | blob (bytes : List UInt8)
  deriving DecidableEq, Inhabited

inductive StorageClass where
  | null
  | integer
  | real
  | text
  | blob
  deriving DecidableEq, Repr

def StorageClass.name : StorageClass → String
  | .null => "Null"
  | .integer => "Integer"
  | .real => "Real"
  | .text => "Text"
  | .blob => "Blob"

def Stored.storageClass : Stored → StorageClass
  | .null => .null
  | .integer _ => .integer
  | .real _ => .real
  | .text _ => .text
  | .blob _ => .blob

inductive Value where
  | int (i : Int64)
  | real (x : Binary64)
  | text (s : String)
  | bool (b : Bool)
  | timestamp (t : DateTime)
  | null
  | json (j : Json)
  | blob (bytes : List UInt8)

inductive ValueKind where
  | int
  | real
  | text
  | bool
  | timestamp
  | null
  | json
  | blob
  deriving DecidableEq, Repr

def ValueKind.name : ValueKind → String
  | .int => "integer"
  | .real => "real"
  | .text => "text"
  | .bool => "bool"
  | .timestamp => "timestamp"
  | .null => "NULL"
  | .json => "json"
  | .blob => "blob"

def boolInt (b : Bool) : Int64 := if b then 1 else 0

namespace Value

def kind : Value → ValueKind
  | .int _ => .int
  | .real _ => .real
  | .text _ => .text
  | .bool _ => .bool
  | .timestamp _ => .timestamp
  | .null => .null
  | .json _ => .json
  | .blob _ => .blob

def isNull : Value → Bool
  | .null => true
  | _ => false

def asInt? : Value → Option Int64
  | .int i => some i
  | _ => none

def asText? : Value → Option String
  | .text s => some s
  | _ => none

/-- The truth value of a truth value, or of the integers 0 and 1. -/
def asBool? : Value → Option Bool
  | .bool b => some b
  | .int i => if i = 1 then some true else if i = 0 then some false else none
  | _ => none

/-- The timestamp of a timestamp, or of its text. -/
def asTimestamp? : Value → Option DateTime
  | .timestamp t => some t
  | .text s => DateTime.ofText? s
  | _ => none

def asReal? : Value → Option Binary64
  | .real x => some x
  | _ => none

def asBlob? : Value → Option (List UInt8)
  | .blob bytes => some bytes
  | _ => none

/-- The stored form of a value that belongs to no column. -/
def toStored : Value → Stored
  | .int i => .integer i
  | .real x => .real x
  | .text s => .text s
  | .bool b => .integer (boolInt b)
  | .timestamp t => .text t.iso
  | .null => .null
  | .json j => .text j.text
  | .blob bytes => .blob bytes

/-- A stored value that belongs to no column. -/
def ofStored : Stored → Value
  | .null => .null
  | .integer i => .int i
  | .real x => .real x
  | .text s => .text s
  | .blob bytes => .blob bytes

end Value

structure KindFault where
  expected : String
  found : ValueKind
  deriving DecidableEq

def KindFault.message (f : KindFault) : String := s!"expected {f.expected}, got {f.found.name}"

class FromValue (α : Type) where
  /-- Reads a value. -/
  fromValue : Value → Except KindFault α

export FromValue (fromValue)

class ToValue (α : Type) where
  /-- The value. -/
  toValue : α → Value

export ToValue (toValue)

/-- Reads a value by a partial function, or reports what was expected. -/
def readBy {α : Type} (expected : String) (read? : Value → Option α) (v : Value) :
    Except KindFault α :=
  match read? v with
  | some a => .ok a
  | none => .error ⟨expected, v.kind⟩

instance : FromValue Int64 := ⟨readBy "integer" Value.asInt?⟩

instance : FromValue Int32 :=
  ⟨readBy "32-bit integer" fun v =>
    v.asInt?.bind fun i =>
      if -2 ^ (31 : Nat) ≤ i.toInt ∧ i.toInt < 2 ^ (31 : Nat) then some i.toInt32 else none⟩

instance : FromValue Binary64 :=
  ⟨readBy "real" fun
    | .real x => some x
    | .int i => some (Binary64.ofInt i.toInt)
    | _ => none⟩

instance : FromValue Bool := ⟨readBy "bool" Value.asBool?⟩

instance : FromValue String := ⟨readBy "text" Value.asText?⟩

instance : FromValue (List UInt8) := ⟨readBy "blob" Value.asBlob?⟩

instance : FromValue DateTime := ⟨readBy "timestamp" Value.asTimestamp?⟩

instance : FromValue Json :=
  ⟨readBy "json" fun
    | .json j => some j
    | .text s => (Json.parse s).toOption
    | _ => none⟩

instance : FromValue Value := ⟨.ok⟩

instance {α : Type} [FromValue α] : FromValue (Option α) :=
  ⟨fun v => if v.isNull then .ok none else (fromValue v).map some⟩

instance : ToValue Int64 := ⟨.int⟩

instance : ToValue Int32 := ⟨fun i => .int i.toInt64⟩

instance : ToValue Int16 := ⟨fun i => .int i.toInt64⟩

instance : ToValue UInt32 := ⟨fun n => .int n.toUInt64.toInt64⟩

instance : ToValue UInt8 := ⟨fun n => .int n.toUInt64.toInt64⟩

instance : ToValue Binary64 := ⟨.real⟩

instance : ToValue Bool := ⟨.bool⟩

instance : ToValue String := ⟨.text⟩

instance : ToValue (List UInt8) := ⟨.blob⟩

instance : ToValue DateTime := ⟨.timestamp⟩

instance : ToValue Json := ⟨.json⟩

instance : ToValue Value := ⟨id⟩

instance {α : Type} [ToValue α] : ToValue (Option α) :=
  ⟨fun a => a.elim .null toValue⟩

end TypedTables
