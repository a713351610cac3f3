/-!
# What is wrong with a JSON text, and where

A reader reports a cause together with the number of bytes that follow the place it is about. From
the whole text this gives the line and the column, in bytes, of the message.
-/
namespace TypedTables.Json

inductive Cause where
  | valueUnfinished
  | listUnfinished
  | objectUnfinished
  | stringUnfinished
  | wordExpected
  | valueExpected
  | colonExpected
  | listCommaOrEndExpected
  | objectCommaOrEndExpected
  | keyMustBeString
  | trailingComma
  | trailingCharacters
  | numberInvalid
  | numberOutOfRange
  | escapeInvalid
  | surrogateAlone
  | surrogateUnfinished
  | controlCharacter
  | nestedTooDeep
  /-- The text is JSON but does not have the expected shape. -/
  | shape (message : String)
  deriving DecidableEq, Repr

def Cause.words : Cause → String
  | .valueUnfinished => "EOF while parsing a value"
  | .listUnfinished => "EOF while parsing a list"
  | .objectUnfinished => "EOF while parsing an object"
  | .stringUnfinished => "EOF while parsing a string"
  | .wordExpected => "expected ident"
  | .valueExpected => "expected value"
  | .colonExpected => "expected \x60:\x60"
  | .listCommaOrEndExpected => "expected \x60,\x60 or \x60]\x60"
  | .objectCommaOrEndExpected => "expected \x60,\x60 or \x60\x7d\x60"
  | .keyMustBeString => "key must be a string"
  | .trailingComma => "trailing comma"
  | .trailingCharacters => "trailing characters"
  | .numberInvalid => "invalid number"
  | .numberOutOfRange => "number out of range"
  | .escapeInvalid => "invalid escape"
  | .surrogateAlone => "lone leading surrogate in hex escape"
  | .surrogateUnfinished => "unexpected end of hex escape"
  | .controlCharacter =>
    "control character (\\u0000-\\u001F) found while parsing a string"
  | .nestedTooDeep => "recursion limit exceeded"
  | .shape message => message

def byteLength (cs : List Char) : Nat := cs.foldr (fun c n => c.utf8Size + n) 0

/-- A cause and the number of bytes after the place it is about. -/
structure Fault where
  cause : Cause
  bytesLeft : Nat
  deriving DecidableEq, Repr

def Fault.before (cause : Cause) (rest : List Char) : Fault := ⟨cause, byteLength rest⟩

/-- A fault one byte into `rest`, or at its end if there is none. -/
def Fault.at (cause : Cause) (rest : List Char) : Fault := ⟨cause, byteLength rest - 1⟩

structure LocatedFault where
  cause : Cause
  line : Nat
  column : Nat
  deriving DecidableEq, Repr

/-- The line and the column after `bytes` bytes of a text that starts at the given ones. -/
def locate (line column bytes : Nat) : List Char → Nat × Nat
  | [] => (line, column)
  | c :: cs =>
    if bytes < c.utf8Size then (line, column + bytes)
    else if c = '\n' then locate (line + 1) 0 (bytes - 1) cs
    else locate line (column + c.utf8Size) (bytes - c.utf8Size) cs

def Fault.locatedIn (f : Fault) (text : List Char) : LocatedFault :=
  let (line, column) := locate 1 0 (byteLength text - f.bytesLeft) text
  ⟨f.cause, line, column⟩

def LocatedFault.message (f : LocatedFault) : String :=
  f.cause.words ++ s!" at line {f.line} column {f.column}"

end TypedTables.Json
