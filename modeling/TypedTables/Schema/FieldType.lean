import TypedTables.Affinity
import TypedTables.Calendar.UnixReal
import TypedTables.Error

/-!
# Types of columns

A field type says which values a column takes and how each is stored. `ResolvedType.encode` turns a
value into its stored form and `ResolvedType.decode` reads a stored value back; both check the
domain.
-/
namespace TypedTables

inductive TimestampLayout where
  /-- Seconds since 1970 with their fraction. -/
  | unixReal
  /-- Whole seconds since 1970. -/
  | unixInt
  /-- Text. -/
  | iso8601
  deriving DecidableEq, Repr

def TimestampLayout.name : TimestampLayout → String
  | .unixReal => "UnixReal"
  | .unixInt => "UnixInt"
  | .iso8601 => "Iso8601"

/-- How a custom type is stored. Errors are short descriptions; neither direction sees NULL. -/
structure Codec where
  name : String
  encode : Value → Except String Stored
  decode : Stored → Except String Value

inductive FieldType where
  | integer
  | real
  | text
  | blob
  | bool
  | intEnum (domain : List Int64)
  | strEnum (domain : List String)
  | intLiteral (domain : List Int64)
  | strLiteral (domain : List String)
  | timestamp (layout : TimestampLayout)
  | json
  /-- NULL is taken besides the values of the inner type. -/
  | optional (inner : FieldType)
  | custom (codec : Codec)

namespace FieldType

def name : FieldType → String
  | .integer => "Integer"
  | .real => "Real"
  | .text => "Text"
  | .blob => "Blob"
  | .bool => "Bool"
  | .intEnum domain => s!"IntEnum({showIntegers domain})"
  | .strEnum domain => s!"StrEnum({showTexts domain})"
  | .intLiteral domain => s!"IntLiteral({showIntegers domain})"
  | .strLiteral domain => s!"StrLiteral({showTexts domain})"
  | .timestamp layout => s!"Datetime({layout.name})"
  | .json => "Json"
  | .optional inner => s!"Optional({inner.name})"
  | .custom codec => s!"Custom({codec.name})"

/-- The type that takes NULL too; a type that does already is not wrapped again. -/
def orNull : FieldType → FieldType
  | .optional inner => .optional inner
  | type => .optional type

/-- The affinity that the values of a type ask for; a custom type asks for none. -/
def affinity? : FieldType → Option Affinity
  | .integer | .bool | .intEnum _ | .intLiteral _ | .timestamp .unixInt => some .integer
  | .real | .timestamp .unixReal => some .real
  | .text | .strEnum _ | .strLiteral _ | .json | .timestamp .iso8601 => some .text
  | .blob => some .blob
  | .optional inner => inner.affinity?
  | .custom _ => none

/-- The type of a value besides NULL, and whether NULL is taken: one `optional` is looked
through. -/
def required : FieldType → FieldType × Bool
  | .optional inner => (inner, true)
  | type => (type, false)

end FieldType

structure ResolvedType where
  affinity : Affinity
  optional : Bool
  type : FieldType

namespace ResolvedType

/-- Resolves a type; an affinity that is asked for goes before the one of the type. -/
def of? (type : FieldType) (asked : Option Affinity) : Option ResolvedType :=
  let (inner, optional) := type.required
  (asked <|> inner.affinity?).map fun affinity => ⟨affinity, optional, inner⟩

end ResolvedType

def TimestampLayout.encode : TimestampLayout → DateTime → Stored
  | .unixInt, t => .integer (Int64.ofInt t.unixSeconds)
  | .unixReal, t => .real t.toUnixReal
  | .iso8601, t => .text t.iso

/-- Reads a stored timestamp, whichever layout it has. -/
def decodeTimestamp : Stored → Except ColumnFault DateTime
  | .integer i =>
    match DateTime.ofUnix? i.toInt 0 with
    | some t => .ok t
    | none => .error (.secondsOutOfRange i)
  | .real x =>
    match DateTime.ofUnixReal? x with
    | some t => .ok t
    | none => .error (.realOutOfRange x)
  | .text s =>
    match DateTime.parse s with
    | .ok t => .ok t
    | .error fault => .error (.notTimestamp s fault)
  | stored => .error (.cannotHoldTimestamp stored.storageClass)

namespace FieldType

def encode : FieldType → Value → Except ColumnFault Stored
  | .integer, .int i => .ok (.integer i)
  | .real, .real x => .ok (.real x)
  | .real, .int i => .ok (.real (Binary64.ofInt i.toInt))
  | .text, .text s => .ok (.text s)
  | .blob, .blob bytes => .ok (.blob bytes)
  | .bool, .bool b => .ok (.integer (boolInt b))
  | .intEnum domain, .int i | .intLiteral domain, .int i =>
    if domain.contains i then .ok (.integer i) else .error (.intOutside i domain)
  | .strEnum domain, .text s | .strLiteral domain, .text s =>
    if domain.contains s then .ok (.text s) else .error (.textOutside s domain)
  | .timestamp layout, .timestamp t => .ok (layout.encode t)
  | .json, .json j => .ok (.text j.text)
  | .custom codec, v => (codec.encode v).mapError .codec
  | type, v => .error (.cannotStore v.kind type.name)

def decode : FieldType → Stored → Except ColumnFault Value
  | .integer, .integer i => .ok (.int i)
  | .real, .real x => .ok (.real x)
  | .real, .integer i => .ok (.real (Binary64.ofInt i.toInt))
  | .text, .text s => .ok (.text s)
  | .blob, .blob bytes => .ok (.blob bytes)
  | .bool, .integer i =>
    if i = 0 ∨ i = 1 then .ok (.bool (i == 1)) else .error (.doesNotMatch .integer "Bool")
  | .intEnum domain, .integer i | .intLiteral domain, .integer i =>
    if domain.contains i then .ok (.int i) else .error (.storedIntOutside i domain)
  | .strEnum domain, .text s | .strLiteral domain, .text s =>
    if domain.contains s then .ok (.text s) else .error (.storedTextOutside s domain)
  | .timestamp _, stored => (decodeTimestamp stored).map .timestamp
  | .json, .text s =>
    match Json.parse s with
    | .ok j => .ok (.json j)
    | .error fault => .error (.notJson fault)
  | .custom codec, stored => (codec.decode stored).mapError .codec
  | type, stored => .error (.doesNotMatch stored.storageClass type.name)

end FieldType

namespace ResolvedType

def encode (r : ResolvedType) (v : Value) : Except ColumnFault Stored :=
  if v.isNull then (if r.optional then .ok .null else .error .nullRefused) else r.type.encode v

def decode (r : ResolvedType) (stored : Stored) : Except ColumnFault Value :=
  match stored with
  | .null => if r.optional then .ok .null else .error .storedNull
  | stored => r.type.decode stored

end ResolvedType

end TypedTables
