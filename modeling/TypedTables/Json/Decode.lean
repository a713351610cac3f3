import TypedTables.Json.Parser
import TypedTables.Json.Skip
import TypedTables.Number.Layout
import TypedTables.Text.Quoted

/-!
# Reading JSON texts as given shapes

Readers for texts whose shape is known: truth values, strings, natural numbers, values that may be
null, lists, pairs, words of a fixed list and records. A record is written as an object, with
unknown members ignored, or as an array of its fields in order. A text of another shape is a fault
that says what was found and what was expected.
-/
namespace TypedTables.Json

def shownNumber : Number → String
  | .whole i => "integer " ++ "\x60" ++ toString i.1 ++ "\x60"
  | .real x _ => "floating point " ++ "\x60" ++ Layout.json.write x ++ "\x60"

/-- The fault of a value of another type, just before `rest`. -/
def wrongType (found expected : String) (rest : List Char) : Fault :=
  .before (.shape ("invalid type: " ++ found ++ ", expected " ++ expected)) rest

/-- The fault of the value at the front of a text that has another type than the expected one. -/
def mismatch (expected : String) (cs : List Char) : Fault :=
  let after {α : Type} (r : Except Fault (α × List Char)) (found : α → String) : Fault :=
    match r with
    | .ok (a, rest) => wrongType (found a) expected rest
    | .error f => f
  match cs with
  | 'n' :: r => after (word () ['u', 'l', 'l'] r) fun _ => "null"
  | 't' :: r => after (word () ['r', 'u', 'e'] r) fun _ => "boolean \x60true\x60"
  | 'f' :: r => after (word () ['a', 'l', 's', 'e'] r) fun _ => "boolean \x60false\x60"
  | '-' :: r => after (number true r) shownNumber
  | '"' :: r => after (string r) fun s => "string " ++ Text.quoted s
  | '[' :: _ => wrongType "sequence" expected cs
  | '\x7b' :: _ => wrongType "map" expected cs
  | c :: r =>
    if c.isDigit then after (number false (c :: r)) shownNumber else .at .valueExpected (c :: r)
  | [] => ⟨.valueExpected, 0⟩

/-- Reads a value that starts at a character that is not blank. -/
def fromFirst {α : Type} (read : Reader α) (cs : List Char) : Except Fault (α × List Char) :=
  match skipBlanks cs with
  | [] => .error ⟨.valueUnfinished, 0⟩
  | rest => read rest

def readBool : Reader Bool := fromFirst fun
  | 't' :: r => word true ['r', 'u', 'e'] r
  | 'f' :: r => word false ['a', 'l', 's', 'e'] r
  | cs => .error (mismatch "a boolean" cs)

def readString : Reader String := fromFirst fun
  | '"' :: r => string r
  | cs => .error (mismatch "a string" cs)

/-- Reads a number that fits sixty-four bits without sign. -/
def readNatural (expected : String) : Reader Nat := fromFirst fun cs =>
  let check : Number × List Char → Except Fault (Nat × List Char)
    | (.whole i, rest) =>
      if 0 ≤ i.1 then .ok (i.1.toNat, rest)
      else .error (.before (.shape
        ("invalid value: integer \x60" ++ toString i.1 ++ "\x60, expected " ++ expected)) rest)
    | (.real x h, rest) => .error (wrongType (shownNumber (.real x h)) expected rest)
  match cs with
  | '-' :: r => number true r >>= check
  | c :: r =>
    if c.isDigit then number false (c :: r) >>= check else .error (mismatch expected (c :: r))
  | [] => .error ⟨.valueUnfinished, 0⟩

def readOption {α : Type} (read : Reader α) (cs : List Char) :
    Except Fault (Option α × List Char) :=
  match skipBlanks cs with
  | 'n' :: r => word none ['u', 'l', 'l'] r
  | rest => (read rest).map fun (a, rest) => (some a, rest)

/-- Looks for the next item of an array: the rest of the text from it, or none at the bracket, which
is left in place. -/
def nextItem (first : Bool) (cs : List Char) : Except Fault (Option (List Char)) :=
  match skipBlanks cs with
  | [] => .error ⟨.listUnfinished, 0⟩
  | ']' :: _ => .ok none
  | c :: rest =>
    if first then .ok (some (c :: rest))
    else if c = ',' then
      match skipBlanks rest with
      | [] => .error ⟨.valueUnfinished, 0⟩
      | ']' :: rest => .error (.at .trailingComma (']' :: rest))
      | rest => .ok (some rest)
    else .error (.at .listCommaOrEndExpected (c :: rest))

def endItems (cs : List Char) : Except Fault (List Char) :=
  match skipBlanks cs with
  | [] => .error ⟨.listUnfinished, 0⟩
  | ']' :: rest => .ok rest
  | ',' :: rest =>
    match skipBlanks rest with
    | ']' :: rest => .error (.at .trailingComma (']' :: rest))
    | rest => .error (.at .trailingCharacters rest)
  | rest => .error (.at .trailingCharacters rest)

/-- The place just after a bracket, if it comes next, else the place before what comes next. -/
def afterBracket (bracket : Char) (cs : List Char) : List Char :=
  match skipBlanks cs with
  | [] => []
  | c :: rest => if c = bracket then rest else c :: rest

/-- Reads at most `fuel` items up to the bracket, which is left in place. -/
def readItems {α : Type} (read : Reader α) : Nat → Bool → Reader (List α)
  | 0, _, cs => .error (.before .listUnfinished cs)
  | fuel + 1, first, cs => do
    match ← nextItem first cs with
    | none => .ok ([], cs)
    | some rest =>
      let (a, rest) ← read rest
      let (as, rest) ← readItems read fuel false rest
      .ok (a :: as, rest)

def readList {α : Type} (read : Reader α) : Reader (List α) := fromFirst fun
  | '[' :: r => do
    let (as, rest) ← readItems read (r.length + 1) true r
    let rest ← endItems rest
    .ok (as, rest)
  | cs => .error (mismatch "a sequence" cs)

/-- The fault of an array with too few items, which ends at `rest`. -/
def wrongLength (count : Nat) (expected : String) (rest : List Char) : Fault :=
  .before (.shape (s!"invalid length {count}, expected {expected}")) (afterBracket ']' rest)

/-- Reads a pair, written as an array. -/
def readPair {α β : Type} (readFirst : Reader α) (readSecond : Reader β) : Reader (α × β) :=
  let expected := "a tuple of size 2"
  fromFirst fun
  | '[' :: r => do
    match ← nextItem true r with
    | none => .error (wrongLength 0 expected r)
    | some r =>
      let (a, r) ← readFirst r
      match ← nextItem false r with
      | none => .error (wrongLength 1 expected r)
      | some r =>
        let (b, r) ← readSecond r
        let r ← endItems r
        .ok ((a, b), r)
  | cs => .error (mismatch expected cs)

def shownWords (words : List String) : String :=
  match words.map fun w => "\x60" ++ w ++ "\x60" with
  | [a, b] => a ++ " or " ++ b
  | ws => "one of " ++ String.intercalate ", " ws

/-- Reads one of some words, as a string or as an object whose only member, named by the word, is
null. -/
def readWord {α : Type} (words : List (String × α)) (cs : List Char) :
    Except Fault (α × List Char) :=
  let choose (s : String) (rest : List Char) : Except Fault α :=
    match words.find? (·.1 == s) with
    | some w => .ok w.2
    | none => .error (.before (.shape ("unknown variant \x60" ++ s ++ "\x60, expected " ++
        shownWords (words.map (·.1)))) rest)
  let key : Reader α := fromFirst fun
    | '"' :: r => do
      let (s, r) ← string r
      let a ← choose s r
      .ok (a, r)
    | cs => .error (mismatch "variant identifier" cs)
  match skipBlanks cs with
  | [] => .error ⟨.valueUnfinished, 0⟩
  | '"' :: r => key ('"' :: r)
  | '\x7b' :: r => do
    let (a, r) ← key r
    let r ← colon r
    let (_, r) ← fromFirst (fun
      | 'n' :: r => word () ['u', 'l', 'l'] r
      | cs => .error (mismatch "unit" cs)) r
    match skipBlanks r with
    | [] => .error ⟨.objectUnfinished, 0⟩
    | '\x7d' :: r => .ok (a, r)
    | r => .error (.before .valueExpected r)
  | rest => .error (.at .valueExpected rest)

structure Field (σ : Type) where
  name : String
  required : Bool
  read : Reader (σ → σ)

def Field.must {σ α : Type} (name : String) (read : Reader α) (put : α → σ → σ) : Field σ :=
  ⟨name, true, fun cs => (read cs).map fun (a, rest) => (put a, rest)⟩

def Field.may {σ α : Type} (name : String) (read : Reader α) (put : α → σ → σ) : Field σ :=
  ⟨name, false, fun cs => (read cs).map fun (a, rest) => (put a, rest)⟩

structure RecordShape (σ : Type) where
  /-- What is expected, in messages. -/
  name : String
  /-- The record whose fields are all missing. -/
  start : σ
  fields : List (Field σ)

namespace RecordShape

variable {σ : Type} (shape : RecordShape σ)

/-- Looks for the name of the next member of an object: the text after its opening quote, or none at
the brace, which is left in place. -/
def nextName (first : Bool) (cs : List Char) : Except Fault (Option (List Char)) :=
  match skipBlanks cs with
  | [] => .error ⟨.objectUnfinished, 0⟩
  | '\x7d' :: _ => .ok none
  | c :: rest =>
    if first then
      if c = '"' then .ok (some rest) else .error (.at .keyMustBeString (c :: rest))
    else if c = ',' then
      match skipBlanks rest with
      | [] => .error ⟨.valueUnfinished, 0⟩
      | '\x7d' :: rest => .error (.at .trailingComma ('\x7d' :: rest))
      | '"' :: rest => .ok (some rest)
      | rest => .error (.at .keyMustBeString rest)
    else .error (.at .objectCommaOrEndExpected (c :: rest))

/-- The fault of a field, at the end of its record or before what comes next. -/
def fieldFault (what name : String) (rest : List Char) : Fault :=
  .before (.shape (what ++ " field \x60" ++ name ++ "\x60")) (afterBracket '\x7d' rest)

/-- Reads at most `fuel` members up to the brace. `seen` are the fields that were read. -/
def readMembers : Nat → Bool → List String → σ → Reader σ
  | 0, _, _, _, cs => .error (.before .objectUnfinished cs)
  | fuel + 1, first, seen, s, cs => do
    match ← nextName first cs with
    | none =>
      match shape.fields.find? fun f => f.required && !seen.contains f.name with
      | some f => .error (fieldFault "missing" f.name cs)
      | none => .ok (s, afterBracket '\x7d' cs)
    | some rest =>
      let (name, rest) ← string rest
      match shape.fields.find? (·.name == name) with
      | some f =>
        if seen.contains name then .error (fieldFault "duplicate" name rest)
        else
          let rest ← colon rest
          let (change, rest) ← f.read rest
          readMembers fuel false (name :: seen) (change s) rest
      | none =>
        let rest ← colon rest
        let (_, rest) ← skipValue rest
        readMembers fuel false seen s rest

/-- Reads the fields in order, up to the bracket, which is left in place. -/
def readFields (count : Nat) : List (Field σ) → Bool → σ → Reader σ
  | [], _, s, cs => .ok (s, cs)
  | f :: fs, first, s, cs => do
    match ← nextItem first cs with
    | some rest =>
      let (change, rest) ← f.read rest
      readFields (count + 1) fs false (change s) rest
    | none =>
      if f.required then
        .error (wrongLength count s!"{shape.name} with {shape.fields.length} elements" cs)
      else readFields (count + 1) fs first s cs

def read : Reader σ := fromFirst fun
  | '[' :: r => do
    let (s, r) ← shape.readFields 0 shape.fields true shape.start r
    let r ← endItems r
    .ok (s, r)
  | '\x7b' :: r => shape.readMembers (r.length + 1) true [] shape.start r
  | cs => .error (mismatch shape.name cs)

end RecordShape

def parseAs {α : Type} (read : Reader α) (s : String) : Except LocatedFault α :=
  let result : Except Fault α := do
    let (a, rest) ← read s.toList
    finished rest
    .ok a
  result.mapError (·.locatedIn s.toList)

end TypedTables.Json
