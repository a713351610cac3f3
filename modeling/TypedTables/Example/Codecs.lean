import TypedTables.Schema.FieldType

/-!
# Example codecs

Three custom types: text stored in upper case, values stored as they are, and points of the plane
stored as sixteen bytes.
-/
namespace TypedTables.Example

/-- Text that is stored in upper case and read in lower case. -/
def upper : Codec where
  name := "Upper"
  encode
    | .text s => .ok (.text (String.ofList (s.toList.map Char.toUpper)))
    | _ => .error "expected text"
  decode
    | .text s => .ok (.text (String.ofList (s.toList.map Char.toLower)))
    | _ => .error "expected text"

def raw : Codec where
  name := "Raw"
  encode v := .ok v.toStored
  decode stored := .ok (.ofStored stored)

def pointJson (x y : Binary64) : Json := .ofTree (.array [Json.ofReal x, Json.ofReal y])

def point : Codec where
  name := "PointCodec"
  encode
    | .json j =>
      match j.items? with
      | none => .error "expected a point, got json"
      | some items =>
        match items.filterMap Json.Tree.real? with
        | [x, y] => .ok (.blob (x.toBytes ++ y.toBytes))
        | _ => .error "a point has exactly two numeric coordinates"
    | v => .error s!"expected a point, got {v.kind.name}"
  decode
    | .blob bytes =>
      if bytes.length = 16 then
        .ok (.json (pointJson (.ofBytes (bytes.take 8)) (.ofBytes (bytes.drop 8))))
      else .error s!"point blob has {bytes.length} bytes, expected 16"
    | _ => .error "point must be stored as a blob"

end TypedTables.Example
