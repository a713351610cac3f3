import TypedTables.Json.Value
import TypedTables.Number.Layout

/-!
# JSON texts as written

A value is written without blanks. In a string only the quote, the backslash and the characters
below the space are escaped; a number keeps the shortest digits that read back.
-/
namespace TypedTables.Json

def hexDigit (n : Nat) : Char := Nat.digitChar n

def escaped (c : Char) : List Char :=
  if c = '"' then ['\\', '"']
  else if c = '\\' then ['\\', '\\']
  else if c = '\x08' then ['\\', 'b']
  else if c = '\x0c' then ['\\', 'f']
  else if c = '\n' then ['\\', 'n']
  else if c = '\r' then ['\\', 'r']
  else if c = '\t' then ['\\', 't']
  else if c.toNat < 0x20 then
    ['\\', 'u', '0', '0', hexDigit (c.toNat / 16), hexDigit (c.toNat % 16)]
  else [c]

def stringChars (s : String) : List Char := '"' :: s.toList.flatMap escaped ++ ['"']

def integerChars (i : Int) : List Char :=
  if i < 0 then '-' :: Nat.toDigits 10 i.natAbs else Nat.toDigits 10 i.toNat

def Number.chars : Number → List Char
  | .whole i => integerChars i.1
  | .real x _ => (Layout.json.write x).toList

namespace Tree

mutual

def chars : Tree → List Char
  | .null => ['n', 'u', 'l', 'l']
  | .bool true => ['t', 'r', 'u', 'e']
  | .bool false => ['f', 'a', 'l', 's', 'e']
  | .number n => n.chars
  | .string s => stringChars s
  | .array [] => ['[', ']']
  | .array (t :: ts) => '[' :: chars t ++ moreItems ts
  | .object [] => ['\x7b', '\x7d']
  | .object ((name, t) :: ms) => '\x7b' :: stringChars name ++ ':' :: chars t ++ moreMembers ms

def moreItems : List Tree → List Char
  | [] => [']']
  | t :: ts => ',' :: chars t ++ moreItems ts

def moreMembers : List (String × Tree) → List Char
  | [] => ['\x7d']
  | (name, t) :: ms => ',' :: stringChars name ++ ':' :: chars t ++ moreMembers ms

end

def text (t : Tree) : String := String.ofList t.chars

end Tree

def text (j : Json) : String := j.tree.text

end TypedTables.Json
