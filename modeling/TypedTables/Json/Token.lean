import TypedTables.Json.Fault
import TypedTables.Json.Value
import TypedTables.Number.Decimal

/-!
# The pieces of a JSON text

Readers take the characters of a text and answer what they read together with the characters that
follow it. This module reads what has no parts that are values: blanks, fixed words, strings and
numbers.
-/
namespace TypedTables.Json

attribute [local instance (high)] instPowNat

abbrev Reader (α : Type) := List Char → Except Fault (α × List Char)

def isBlank (c : Char) : Bool := c == ' ' || c == '\n' || c == '\t' || c == '\r'

def skipBlanks (cs : List Char) : List Char := cs.dropWhile isBlank

def word {α : Type} (a : α) : List Char → Reader α
  | [], cs => .ok (a, cs)
  | _ :: _, [] => .error ⟨.valueUnfinished, 0⟩
  | w :: ws, c :: cs =>
    if c = w then word a ws cs else .error ⟨.wordExpected, byteLength (c :: cs) - 1⟩

def hexValue? (c : Char) : Option Nat :=
  if c.isDigit then some (c.toNat - '0'.toNat)
  else if 'a' ≤ c && c ≤ 'f' then some (c.toNat - 'a'.toNat + 10)
  else if 'A' ≤ c && c ≤ 'F' then some (c.toNat - 'A'.toNat + 10)
  else none

def hexQuad (cs : List Char) : Except Fault (Nat × List Char) :=
  if byteLength cs < 4 then .error ⟨.stringUnfinished, 0⟩
  else
    match (cs.take 4).mapM hexValue? with
    | some [a, b, c, d] => .ok (((a * 16 + b) * 16 + c) * 16 + d, cs.drop 4)
    | _ => .error ⟨.escapeInvalid, byteLength cs - 4⟩

def isLeading (n : Nat) : Bool := 0xd800 ≤ n && n ≤ 0xdbff

def isTrailing (n : Nat) : Bool := 0xdc00 ≤ n && n ≤ 0xdfff

def joinHalves (lead trail : Nat) : Char :=
  Char.ofNat ((lead - 0xd800) * 0x400 + (trail - 0xdc00) + 0x10000)

/-- Reads a character that is given by its number, after the `u`. -/
def numberedChar (cs : List Char) : Except Fault (Char × List Char) := do
  let (n, rest) ← hexQuad cs
  if isTrailing n then .error (.before .surrogateAlone rest)
  else if isLeading n then
    match rest with
    | [] => .error ⟨.stringUnfinished, 0⟩
    | '\\' :: [] => .error ⟨.stringUnfinished, 0⟩
    | '\\' :: 'u' :: more =>
      let (m, rest) ← hexQuad more
      if isTrailing m then .ok (joinHalves n m, rest)
      else .error (.before .surrogateAlone rest)
    | '\\' :: more => .error (.at .surrogateUnfinished more)
    | _ => .error (.at .surrogateUnfinished rest)
  else .ok (Char.ofNat n, rest)

def escape : List Char → Except Fault (Char × List Char)
  | [] => .error ⟨.stringUnfinished, 0⟩
  | '"' :: cs => .ok ('"', cs)
  | '\\' :: cs => .ok ('\\', cs)
  | '/' :: cs => .ok ('/', cs)
  | 'b' :: cs => .ok ('\x08', cs)
  | 'f' :: cs => .ok ('\x0c', cs)
  | 'n' :: cs => .ok ('\n', cs)
  | 'r' :: cs => .ok ('\r', cs)
  | 't' :: cs => .ok ('\t', cs)
  | 'u' :: cs => numberedChar cs
  | cs => .error (.at .escapeInvalid cs)

/-- Reads at most `fuel` characters of a string up to its closing quote. -/
def stringTail : Nat → List Char → Except Fault (List Char × List Char)
  | 0, _ => .error ⟨.stringUnfinished, 0⟩
  | _ + 1, [] => .error ⟨.stringUnfinished, 0⟩
  | fuel + 1, c :: cs =>
    if c = '"' then .ok ([], cs)
    else if c = '\\' then do
      let (c, rest) ← escape cs
      let (more, rest) ← stringTail fuel rest
      .ok (c :: more, rest)
    else if c.toNat < 0x20 then .error (.before .controlCharacter cs)
    else do
      let (more, rest) ← stringTail fuel cs
      .ok (c :: more, rest)

def string (cs : List Char) : Except Fault (String × List Char) := do
  let (s, rest) ← stringTail (cs.length + 1) cs
  .ok (String.ofList s, rest)

def digits (cs : List Char) : List Char := cs.takeWhile Char.isDigit

def digitValue (c : Char) : Nat := c.toNat - '0'.toNat

/-- Appends digits to `n` while the number stays below `bound`; answers how many it appended. -/
def appendDigits (bound n : Nat) : List Char → Nat × Nat
  | [] => (n, 0)
  | c :: cs =>
    let m := n * 10 + digitValue c
    if m < bound then
      let (m, count) := appendDigits bound m cs
      (m, count + 1)
    else (n, 0)

def significandBound : Nat := 2 ^ (64 : Nat)

def exponentBound : Nat := 2 ^ (31 : Nat)

/-- Powers of ten that are floating point numbers. -/
def powerOfTen (n : Nat) : Binary64 := Binary64.ofInt (10 ^ n)

/-- The floating point number of `significand * 10 ^ exponent`: the significand is rounded, and then
multiplied or divided by a power of ten. None if the result is too large. -/
def scaleByPower (significand : Nat) (exponent : Int) : Option Binary64 :=
  let f := Binary64.ofInt significand
  if significand = 0 then some f
  else if 0 ≤ exponent then
    if exponent ≤ 308 then
      let x := f.mul (powerOfTen exponent.toNat)
      if x.isFinite then some x else none
    else none
  else if exponent ≥ -308 then some (f.div (powerOfTen (-exponent).toNat))
  else if exponent ≥ -616 then
    some ((f.div (powerOfTen 308)).div (powerOfTen (-exponent - 308).toNat))
  else some (Binary64.zero false)

/-- A floating point number, or the fault of one that is too large. -/
def realNumber (x : Binary64) (rest : List Char) : Except Fault (Number × List Char) :=
  if h : x.isFinite = true then .ok (.real x h, rest) else .error (.before .numberOutOfRange rest)

/-- A floating point number with its sign, given by its digits and a power of ten. -/
def signedReal (neg : Bool) (significand : Nat) (exponent : Int) (rest : List Char) :
    Except Fault (Number × List Char) :=
  match scaleByPower significand exponent with
  | some x => realNumber (if neg then x.neg else x) rest
  | none => .error (.before .numberOutOfRange rest)

def exponent (neg : Bool) (significand : Nat) (start : Int) (cs : List Char) :
    Except Fault (Number × List Char) :=
  let (down, cs) : Bool × List Char := match cs with
    | '+' :: r => (false, r)
    | '-' :: r => (true, r)
    | r => (false, r)
  match cs with
  | [] => .error ⟨.valueUnfinished, 0⟩
  | c :: _ =>
    if !c.isDigit then .error (.at .numberInvalid cs)
    else
      let ds := digits cs
      let rest := cs.drop ds.length
      let (n, count) := appendDigits exponentBound 0 ds
      if count < ds.length && significand ≠ 0 && !down then
        .error (.before .numberOutOfRange (cs.drop (count + 1)))
      else if count < ds.length then
        realNumber (Binary64.zero neg) rest
      else signedReal neg significand (if down then start - n else start + n) rest

/-- Reads what may follow the digits of a number: an exponent or nothing. -/
def afterDigits (neg : Bool) (significand : Nat) (start : Int) : Reader Number
  | 'e' :: cs => exponent neg significand start cs
  | 'E' :: cs => exponent neg significand start cs
  | cs => signedReal neg significand start cs

def number (neg : Bool) (cs : List Char) : Except Fault (Number × List Char) :=
  match cs with
  | [] => .error ⟨.valueUnfinished, 0⟩
  | c :: r =>
    if !c.isDigit then .error (.at .numberInvalid cs)
    else if c = '0' && (r.head?.any Char.isDigit) then .error (.at .numberInvalid r)
    else
      let ds := digits cs
      let rest := cs.drop ds.length
      let (n, count) := appendDigits significandBound 0 ds
      let dropped : Nat := ds.length - count
      match rest with
      | '.' :: r =>
        let fs := digits r
        let rest := r.drop fs.length
        if fs.isEmpty then
          .error (.at (if r.isEmpty then .valueUnfinished else .numberInvalid) r)
        else
          let (n, count) := appendDigits significandBound n fs
          afterDigits neg n ((dropped : Int) - count) rest
      | 'e' :: r => exponent neg n dropped r
      | 'E' :: r => exponent neg n dropped r
      | _ =>
        if dropped = 0 && !(neg && n = 0) then
          match Number.ofInt? (if neg then -(n : Int) else n) with
          | some i => .ok (i, rest)
          | none => realNumber (if neg then (Binary64.ofInt n).neg else Binary64.ofInt n) rest
        else signedReal neg n dropped rest

end TypedTables.Json
