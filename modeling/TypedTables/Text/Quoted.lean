import TypedTables.Text.Combining
import TypedTables.Text.Unprintable

/-!
# Quoted text in messages

How a text is shown inside a message: between double quotes, with a backslash before what would end
the quote, short escapes for the common controls, and the number of every character that has no form
of its own. Lists are shown between brackets, sets between braces.
-/
namespace TypedTables.Text

/-- The digits of a code point in base sixteen, in lower case and without leading zeros. -/
def hexDigits (n : Nat) : List Char := Nat.toDigits 16 n

def needsNumber (c : Char) : Bool := isCombining c || isUnprintable c

def quotedChar (c : Char) : List Char :=
  if c = '\x00' then ['\\', '0']
  else if c = '\t' then ['\\', 't']
  else if c = '\r' then ['\\', 'r']
  else if c = '\n' then ['\\', 'n']
  else if c = '\\' then ['\\', '\\']
  else if c = '"' then ['\\', '"']
  else if needsNumber c then ['\\', 'u', '\x7b'] ++ hexDigits c.toNat ++ ['\x7d']
  else [c]

def quotedChars (cs : List Char) : List Char := '"' :: cs.flatMap quotedChar ++ ['"']

def quoted (s : String) : String := String.ofList (quotedChars s.toList)

def bracketed (items : List String) : String := "[" ++ String.intercalate ", " items ++ "]"

def braced (items : List String) : String := "\x7b" ++ String.intercalate ", " items ++ "\x7d"

end TypedTables.Text
