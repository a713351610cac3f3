import TypedTables.Error
import TypedTables.Text.Blank
import TypedTables.Text.Identifier

/-!
# Placeholders of a clause

A clause that the caller writes may refer to parameters as `:name`. The names are found outside
quoted text and must be the declared ones; other kinds of placeholders are refused.
-/
namespace TypedTables.Clause

def closing? (c : Char) : Option Char :=
  if c = '\'' || c = '"' || c = '\x60' then some c
  else if c = '[' then some ']'
  else none

/-- The clause with blanks in place of quoted text. `close` is the quote that is open. -/
def unquoted : Option Char → List Char → List Char
  | _, [] => []
  | some q, c :: cs => ' ' :: unquoted (if c = q then none else some q) cs
  | none, c :: cs =>
    match closing? c with
    | some q => ' ' :: unquoted (some q) cs
    | none => c :: unquoted none cs

def names : List Char → Except StatementFault (List String)
  | [] => .ok []
  | c :: cs =>
    if c = '?' then .error .positionalPlaceholder
    else if c = ':' || c = '@' || c = '$' then
      let name := cs.takeWhile Text.isNameChar
      if name.isEmpty then names cs
      else if c = ':' && Text.isIdentifierChars name then do
        let more ← names cs
        .ok (String.ofList name :: more)
      else .error (.unsupportedPlaceholder c (String.ofList name))
    else names cs

/-- The parameters that a clause refers to, each once, in the order in which they first occur. -/
def placeholders (clause : String) : Except StatementFault (List String) :=
  (names (unquoted none clause.toList)).map List.eraseDups

/-- Names that start like this are given to parameters by the library. -/
def reservedStart : List Char := ['_', '_']

def isReserved (name : String) : Bool := reservedStart.isPrefixOf name.toList

def checkDeclared (name : String) : Except StatementFault Unit :=
  if !Text.isIdentifier name then .error (.placeholderName name)
  else if isReserved name then .error (.reservedPlaceholder name)
  else .ok ()

/-- Checks a name that the clause refers to; `set` are the names of the values that are set. -/
def checkReferenced (declared set : List String) (name : String) : Except StatementFault Unit :=
  if set.contains name then .error (.placeholderShared name)
  else if !declared.contains name then .error (.placeholderUndeclared name)
  else .ok ()

/-- Checks that a clause refers to the declared parameters and to no others. -/
def check (clause : String) (declared set : List String) : Except StatementFault Unit := do
  declared.forM checkDeclared
  let referenced ← placeholders clause
  referenced.forM (checkReferenced declared set)
  match declared.find? (!referenced.contains ·) with
  | some name => .error (.placeholderUnused name)
  | none => .ok ()

end TypedTables.Clause
