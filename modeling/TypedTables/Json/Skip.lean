import TypedTables.Json.Token

/-!
# Skipping JSON values

A value that nobody asks for is skipped: its brackets have to match and its words, numbers and
strings have to be well formed, but numbers are not evaluated, halves of characters need not be
paired and brackets may be nested to any depth.
-/
namespace TypedTables.Json

/-- Skips what follows the integer part of a number: an exponent or nothing. -/
def skipExponent : Reader Unit
  | c :: cs =>
    if c = 'e' || c = 'E' then
      let cs := match cs with
        | '+' :: r => r
        | '-' :: r => r
        | r => r
      match cs with
      | [] => .error ⟨.numberInvalid, 0⟩
      | d :: r =>
        if d.isDigit then .ok ((), r.dropWhile Char.isDigit)
          else .error (.at .numberInvalid (d :: r))
    else .ok ((), c :: cs)
  | [] => .ok ((), [])

def skipNumber : Reader Unit
  | [] => .error ⟨.numberInvalid, 0⟩
  | c :: cs =>
    if !c.isDigit then .error (.at .numberInvalid (c :: cs))
    else if c = '0' && cs.head?.any Char.isDigit then .error (.at .numberInvalid cs)
    else
      match (if c = '0' then cs else cs.dropWhile Char.isDigit) with
      | '.' :: r =>
        if r.head?.any Char.isDigit then skipExponent (r.dropWhile Char.isDigit)
        else .error (.at .numberInvalid r)
      | r => skipExponent r

def skipEscape : Reader Unit
  | [] => .error ⟨.stringUnfinished, 0⟩
  | c :: cs =>
    if c = 'u' then (hexQuad cs).map fun (_, rest) => ((), rest)
    else if ['"', '\\', '/', 'b', 'f', 'n', 'r', 't'].contains c then .ok ((), cs)
    else .error (.at .escapeInvalid (c :: cs))

/-- Skips at most `fuel` characters of a string up to its closing quote. -/
def skipString : Nat → Reader Unit
  | 0, _ => .error ⟨.stringUnfinished, 0⟩
  | _ + 1, [] => .error ⟨.stringUnfinished, 0⟩
  | fuel + 1, c :: cs =>
    if c = '"' then .ok ((), cs)
    else if c = '\\' then do
      let (_, rest) ← skipEscape cs
      skipString fuel rest
    else if c.toNat < 0x20 then .error (.before .controlCharacter (c :: cs))
    else skipString fuel cs

inductive Bracket where
  | list
  | object
  deriving DecidableEq

def skipName (cs : List Char) : Except Fault (List Char) := do
  match skipBlanks cs with
  | [] => .error ⟨.objectUnfinished, 0⟩
  | '"' :: rest =>
    let (_, rest) ← skipString (rest.length + 1) rest
    match skipBlanks rest with
    | [] => .error ⟨.objectUnfinished, 0⟩
    | ':' :: rest => .ok rest
    | rest => .error (.at .colonExpected rest)
  | rest => .error (.at .keyMustBeString rest)

/-- Goes on inside the open brackets, the innermost first, after a value (`done`) or after an
opening bracket: closes brackets as long as they end. Answers the brackets that are open where the
next value starts; no bracket when everything is closed. -/
def closeBrackets (done : Bool) : List Bracket → List Char → Except Fault (List Bracket × List Char)
  | [], cs => .ok ([], cs)
  | b :: bs, cs =>
    match skipBlanks cs with
    | [] => .error ⟨match b with
      | .list => .listUnfinished
      | .object => .objectUnfinished, 0⟩
    | c :: rest =>
      if c = ',' && done then
        if b = .object then (skipName rest).map fun rest => (b :: bs, rest) else .ok (b :: bs, rest)
      else if (c = ']' && b = .list) || (c = '\x7d' && b = .object) then closeBrackets true bs rest
      else if done then
        .error (.at (match b with
          | .list => .listCommaOrEndExpected
          | .object => .objectCommaOrEndExpected) (c :: rest))
      else if b = .object then (skipName (c :: rest)).map fun rest => (b :: bs, rest)
      else .ok (b :: bs, c :: rest)

/-- Skips one value, and what follows it inside the open brackets, in at most `fuel` steps. -/
def skipInside : Nat → List Bracket → Reader Unit
  | 0, _, cs => .error (.before .valueUnfinished cs)
  | fuel + 1, open_, cs => do
    let after (done : Bool) (open_ : List Bracket) (rest : List Char) :
      Except Fault (Unit × List Char) := do
      match ← closeBrackets done open_ rest with
      | ([], rest) => .ok ((), rest)
      | (open_, rest) => skipInside fuel open_ rest
    match skipBlanks cs with
    | [] => .error ⟨.valueUnfinished, 0⟩
    | '[' :: rest => after false (.list :: open_) rest
    | '\x7b' :: rest => after false (.object :: open_) rest
    | 'n' :: rest =>
      let (_, rest) ← word () ['u', 'l', 'l'] rest
      after true open_ rest
    | 't' :: rest =>
      let (_, rest) ← word () ['r', 'u', 'e'] rest
      after true open_ rest
    | 'f' :: rest =>
      let (_, rest) ← word () ['a', 'l', 's', 'e'] rest
      after true open_ rest
    | '-' :: rest =>
      let (_, rest) ← skipNumber rest
      after true open_ rest
    | '"' :: rest =>
      let (_, rest) ← skipString (rest.length + 1) rest
      after true open_ rest
    | c :: rest =>
      if c.isDigit then
        let (_, rest) ← skipNumber (c :: rest)
        after true open_ rest
      else .error (.at .valueExpected (c :: rest))

def skipValue (cs : List Char) : Except Fault (Unit × List Char) :=
  skipInside (cs.length + 1) [] cs

end TypedTables.Json
