import TypedTables.Engine.Fault
import TypedTables.Engine.Numeral

/-!
# Tokens

The text of a statement is cut into pieces, each as long as its first character allows; the pieces
together are the text. Blanks and comments are dropped, and every other piece is a token, with the
byte at which it starts.
-/
namespace TypedTables.Engine

/-- A character of a name: an ASCII letter or digit, `_`, `$`, and every character beyond ASCII. -/
def isIdChar (c : Char) : Bool := c.isAlphanum || c == '_' || c == '$' || 128 ≤ c.toNat

/-- The number of characters up to and including the closing quote; none if it is missing. A doubled
quote stands for one and does not close. -/
def quotedLength (q : Char) : List Char → Option Nat
  | [] => none
  | c :: cs =>
    if c = q then
      match cs with
      | d :: ds => if d = q then (quotedLength q ds).map (· + 2) else some 1
      | [] => some 1
    else (quotedLength q cs).map (· + 1)

/-- The number of characters of a comment after its opening, up to and including its end. -/
def commentLength : List Char → Nat
  | '*' :: '/' :: _ => 2
  | _ :: cs => commentLength cs + 1
  | [] => 0

/-- The number of characters that satisfy `p` at the start. -/
def spanLength (p : Char → Bool) (cs : List Char) : Nat := (cs.takeWhile p).length

inductive TokenKind where
  | blank
  | word
  /-- A name between quotes or brackets. -/
  | quotedName
  | text
  | blob
  | number
  | placeholder
  | sign
  | illegal
  deriving DecidableEq, Repr

/-- The number of characters of a number, and whether it is one: names must not follow it
directly. -/
def numberPiece (cs : List Char) : TokenKind × Nat :=
  match unsignedAt false cs with
  | none => (.illegal, 1)
  | some (_, rest) =>
    let junk := spanLength isIdChar rest
    (if junk = 0 then .number else .illegal, cs.length - rest.length + junk)

/-- The kind of the piece that starts with `c`, and the number of its characters after `c`. These
are the rules for names, literals and placeholders in their plain forms: a placeholder is a mark and
a name, without the suffixes of `:x(1)` and `:a::b`; an integer is decimal; a vertical tab is a
blank wherever it stands, a byte order mark is part of a name, and NUL does not end a text. -/
def pieceAfter (c : Char) (cs : List Char) : TokenKind × Nat :=
  if isSpace c then (.blank, spanLength isSpace cs)
  else if c = '\'' then
    match quotedLength c cs with
    | some n => (.text, n)
    | none => (.illegal, cs.length)
  else if c = '"' || c = '\x60' then
    match quotedLength c cs with
    | some n => (.quotedName, n)
    | none => (.illegal, cs.length)
  else if c = '[' then
    let n := spanLength (· ≠ ']') cs
    if n < cs.length then (.quotedName, n + 1) else (.illegal, n)
  else if (c = 'x' || c = 'X') && cs.head? == some '\'' then
    let digits := spanLength (fun d => (Json.hexValue? d).isSome) (cs.drop 1)
    if digits % 2 = 0 && cs[digits + 1]? == some '\'' then (.blob, digits + 2)
    else (.illegal, min cs.length (spanLength (· ≠ '\'') (cs.drop 1) + 2))
  else if c.isDigit || (c = '.' && (cs.head?.map Char.isDigit).getD false) then
    let (kind, n) := numberPiece (c :: cs)
    (kind, n - 1)
  else if isIdChar c && c ≠ '$' then (.word, spanLength isIdChar cs)
  else if c = '?' then (.placeholder, spanLength Char.isDigit cs)
  else if c = ':' || c = '@' || c = '$' || c = '#' then
    let n := spanLength isIdChar cs
    (if n = 0 then .illegal else .placeholder, n)
  else
    match c, cs with
    | '-', '-' :: _ => (.blank, spanLength (· ≠ '\n') cs)
    | '/', '*' :: d :: ds => (.blank, commentLength (d :: ds) + 1)
    | '=', '=' :: _ | '<', '=' :: _ | '<', '>' :: _ | '<', '<' :: _ | '>', '=' :: _
    | '>', '>' :: _ | '!', '=' :: _ | '|', '|' :: _ => (.sign, 1)
    | '-', '>' :: '>' :: _ => (.sign, 2)
    | '-', '>' :: _ => (.sign, 1)
    | '!', _ => (.illegal, 0)
    | _, _ => (if "-()*;+/%=<>,&~.|".toList.contains c then .sign else .illegal, 0)

structure Piece where
  kind : TokenKind
  chars : List Char

def pieces : List Char → List Piece
  | [] => []
  | c :: cs =>
    let (kind, n) := pieceAfter c cs
    ⟨kind, c :: cs.take n⟩ :: pieces (cs.drop n)
termination_by cs => cs.length
decreasing_by simp only [List.length_drop, List.length_cons]; omega

/-- The pieces of a text, put together, are the text. -/
theorem flatMap_pieces (cs : List Char) : (pieces cs).flatMap Piece.chars = cs := by
  fun_induction pieces cs with
  | case1 => rfl
  | case2 c cs kind n h ih => simp [ih]

/-- A token: the text of its piece, the byte where it starts, and the text since the end of the
token before it. -/
structure Token where
  kind : TokenKind
  text : String
  offset : Nat
  gap : String
  deriving DecidableEq

def byteLength (cs : List Char) : Nat := cs.foldr (fun c n => c.utf8Size + n) 0

/-- The tokens among pieces of which the first starts at the byte `offset`, after `gap`. -/
def tokensFrom (offset : Nat) (gap : List Char) : List Piece → List Token
  | [] => []
  | p :: ps =>
    let next := offset + byteLength p.chars
    if p.kind = .blank then tokensFrom next (gap ++ p.chars) ps
    else ⟨p.kind, String.ofList p.chars, offset, String.ofList gap⟩ :: tokensFrom next [] ps

def tokens (text : String) : List Token := tokensFrom 0 [] (pieces text.toList)

namespace Token

/-- Characters without the quote around them; a doubled quote stands for one. -/
def unquote (q : Char) : List Char → List Char
  | [] => []
  | c :: cs =>
    if c = q then
      match cs with
      | d :: ds => if d = q then q :: unquote q ds else []
      | [] => []
    else c :: unquote q cs

/-- What a name or a text between quotes says. -/
def content (t : Token) : String :=
  match t.text.toList with
  | '[' :: cs => String.ofList (cs.takeWhile (· ≠ ']'))
  | q :: cs =>
    if t.kind = .quotedName || t.kind = .text then String.ofList (unquote q cs) else t.text
  | [] => ""

def blobBytes : List Char → List UInt8
  | a :: b :: cs =>
    UInt8.ofNat ((Json.hexValue? a).getD 0 * 16 + (Json.hexValue? b).getD 0) :: blobBytes cs
  | _ => []

def literal? (t : Token) : Option Stored :=
  match t.kind with
  | .text => some (.text t.content)
  | .blob => some (.blob (blobBytes ((t.text.toList.drop 2).dropLast)))
  | .number => (unsignedAt false t.text.toList).map (·.1)
  | _ => none

def isWord (t : Token) (word : String) : Bool :=
  t.kind = .word && t.text.toList.map Char.toUpper == word.toList

def isSign (t : Token) (sign : String) : Bool := t.kind = .sign && t.text == sign

def reservedWords : List String := [
  "ADD", "ALL", "ALTER", "AND", "AS", "AUTOINCREMENT", "BETWEEN", "CASE", "CHECK", "COLLATE",
  "COMMIT", "CONSTRAINT", "CREATE", "DEFAULT", "DEFERRABLE", "DELETE", "DISTINCT", "DROP", "ELSE",
  "ESCAPE", "EXCEPT", "EXISTS", "FOREIGN", "FROM", "GROUP", "HAVING", "IN", "INDEX", "INSERT",
  "INTERSECT", "INTO", "IS", "ISNULL", "JOIN", "LIMIT", "NOT", "NOTHING", "NOTNULL", "NULL", "ON",
  "OR", "ORDER", "PRIMARY", "REFERENCES", "RETURNING", "SELECT", "SET", "TABLE", "THEN", "TO",
  "TRANSACTION", "UNION", "UNIQUE", "UPDATE", "USING", "VALUES", "WHEN", "WHERE"]

def isName (t : Token) : Bool :=
  t.kind = .quotedName ||
    (t.kind = .word && !reservedWords.contains (String.ofList (t.text.toList.map Char.toUpper)))

end Token

/-- The text of tokens that follow each other, without the gap before the first one. -/
def spelling : List Token → String
  | [] => ""
  | t :: ts => ts.foldl (fun s t => s ++ t.gap ++ t.text) t.text

example : (tokens "a<=':x''' -- b\n,.5e1").map Token.text = ["a", "<=", "':x'''", ",", ".5e1"] := by
  decide +kernel

end TypedTables.Engine
