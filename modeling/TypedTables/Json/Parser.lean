import TypedTables.Json.Token

/-!
# Reading JSON texts

`parse` reads a whole text. Brackets may be nested up to a limit; the readers of nested values recur
on the depth that is left.
-/
namespace TypedTables.Json

def nestingLimit : Nat := 127

/-- Reads the items of an array up to its bracket. `first` tells that no item was read yet. -/
def itemsTail (item : Reader Tree) : Nat → Bool → Reader (List Tree)
  | 0, _, cs => .error (.before .listUnfinished cs)
  | fuel + 1, first, cs =>
    let next (cs : List Char) : Except Fault (List Tree × List Char) := do
      let (t, rest) ← item cs
      let (ts, rest) ← itemsTail item fuel false rest
      .ok (t :: ts, rest)
    match skipBlanks cs with
    | [] => .error ⟨.listUnfinished, 0⟩
    | ']' :: rest => .ok ([], rest)
    | c :: rest =>
      if first then next (c :: rest)
      else if c = ',' then
        match skipBlanks rest with
        | [] => .error ⟨.valueUnfinished, 0⟩
        | ']' :: rest => .error (.at .trailingComma (']' :: rest))
        | rest => next rest
      else .error (.at .listCommaOrEndExpected (c :: rest))

def colon (cs : List Char) : Except Fault (List Char) :=
  match skipBlanks cs with
  | [] => .error ⟨.objectUnfinished, 0⟩
  | ':' :: rest => .ok rest
  | rest => .error (.at .colonExpected rest)

/-- Reads the members of an object up to its brace. `first` tells that no member was read yet. -/
def membersTail (item : Reader Tree) : Nat → Bool → Reader (List (String × Tree))
  | 0, _, cs => .error (.before .objectUnfinished cs)
  | fuel + 1, first, cs =>
    let next (cs : List Char) : Except Fault (List (String × Tree) × List Char) := do
      let (name, rest) ← string cs
      let rest ← colon rest
      let (t, rest) ← item rest
      let (ms, rest) ← membersTail item fuel false rest
      .ok ((name, t) :: ms, rest)
    match skipBlanks cs with
    | [] => .error ⟨.objectUnfinished, 0⟩
    | '\x7d' :: rest => .ok ([], rest)
    | c :: rest =>
      if first then
        if c = '"' then next rest else .error (.at .keyMustBeString (c :: rest))
      else if c = ',' then
        match skipBlanks rest with
        | [] => .error ⟨.valueUnfinished, 0⟩
        | '\x7d' :: rest => .error (.at .trailingComma ('\x7d' :: rest))
        | '"' :: rest => next rest
        | rest => .error (.at .keyMustBeString rest)
      else .error (.at .objectCommaOrEndExpected (c :: rest))

/-- Reads a value; `nested` reads a value inside its brackets and is missing at the limit. -/
def valueWith (nested : Option (Reader Tree)) (cs : List Char) : Except Fault (Tree × List Char) :=
  match skipBlanks cs with
  | [] => .error ⟨.valueUnfinished, 0⟩
  | 'n' :: rest => word .null ['u', 'l', 'l'] rest
  | 't' :: rest => word (.bool true) ['r', 'u', 'e'] rest
  | 'f' :: rest => word (.bool false) ['a', 'l', 's', 'e'] rest
  | '-' :: rest => (number true rest).map fun (n, rest) => (.number n, rest)
  | '"' :: rest => (string rest).map fun (s, rest) => (.string s, rest)
  | '[' :: rest =>
    match nested with
    | none => .error (.at .nestedTooDeep ('[' :: rest))
    | some item =>
      (itemsTail item (rest.length + 1) true rest).map fun (ts, rest) => (.array ts, rest)
  | '\x7b' :: rest =>
    match nested with
    | none => .error (.at .nestedTooDeep ('\x7b' :: rest))
    | some item =>
      (membersTail item (rest.length + 1) true rest).map fun (ms, rest) => (.object ms, rest)
  | c :: rest =>
    if c.isDigit then (number false (c :: rest)).map fun (n, rest) => (.number n, rest)
    else .error (.at .valueExpected (c :: rest))

/-- Reads a value in which at most `depth` brackets are open at once. -/
def value : Nat → Reader Tree
  | 0 => valueWith none
  | depth + 1 => valueWith (some (value depth))

def finished (cs : List Char) : Except Fault Unit :=
  match skipBlanks cs with
  | [] => .ok ()
  | rest => .error (.at .trailingCharacters rest)

def tree? (cs : List Char) : Except Fault Tree := do
  let (t, rest) ← value nestingLimit cs
  finished rest
  .ok t

def parse (s : String) : Except LocatedFault Json :=
  match tree? s.toList with
  | .ok t => .ok (ofTree t)
  | .error f => .error (f.locatedIn s.toList)

end TypedTables.Json
