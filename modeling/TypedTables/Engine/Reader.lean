import TypedTables.Engine.Command
import TypedTables.Engine.Token

/-!
# Reading statements

A statement is read from its tokens, one after the other. The first token that fits nowhere is the
one that a syntax error names. Reading expressions is bounded by a number of steps that the number
of tokens cannot exceed.
-/
namespace TypedTables.Engine

abbrev TokenReader := StateT (List Token) (Except Complaint)

namespace TokenReader

def complaint : List Token → Complaint
  | [] => ⟨.incompleteInput, none⟩
  | t :: _ =>
    if t.kind = .illegal then ⟨.unrecognizedToken t.text, some t.offset⟩
    else ⟨.syntaxNear t.text, some t.offset⟩

/-- The next token fits nowhere. -/
def misfit {α : Type} : TokenReader α := fun ts => .error (complaint ts)

def token (p : Token → Bool) : TokenReader Token := fun ts =>
  match ts with
  | t :: rest => if p t then .ok (t, rest) else .error (complaint ts)
  | [] => .error (complaint ts)

/-- Whether the next token satisfies a condition; it is passed if it does. -/
def passes (p : Token → Bool) : TokenReader Bool := fun ts =>
  match ts with
  | t :: rest => if p t then .ok (true, rest) else .ok (false, ts)
  | [] => .ok (false, [])

def passesWord (word : String) : TokenReader Bool := passes (·.isWord word)

def passesSign (sign : String) : TokenReader Bool := passes (·.isSign sign)

def word (w : String) : TokenReader Unit := do
  let _ ← token (·.isWord w)

def sign (s : String) : TokenReader Unit := do
  let _ ← token (·.isSign s)

def passesWords (w : String) (ws : List String) : TokenReader Bool := do
  if ← passesWord w then
    ws.forM word
    return true
  else return false

/-- Passes a name; a text between quotes can stand for one. -/
def nameToken : TokenReader Token := token fun t => t.isName || t.kind = .text

def name : TokenReader String := do
  let t ← nameToken
  return t.content

def objectName : TokenReader ObjectName := do
  let first ← nameToken
  if ← passesSign "." then
    let second ← nameToken
    return ⟨some (first.content, first.offset), second.content, second.offset⟩
  else return ⟨none, first.content, first.offset⟩

/-- Items separated by commas, at least one; the number bounds them. -/
def commaSeparated {α : Type} (item : TokenReader α) : Nat → TokenReader (List α)
  | 0 => misfit
  | n + 1 => do
    let a ← item
    if ← passesSign "," then
      let as ← commaSeparated item n
      return a :: as
    else return [a]

/-- The number of tokens that are left, and more than any list of them can be long. -/
def bound : TokenReader Nat := do
  let ts ← get
  return ts.length + 1

def list {α : Type} (item : TokenReader α) : TokenReader (List α) := do
  commaSeparated item (← bound)

/-- What was read, and the text of its tokens. -/
def spelled {α : Type} (r : TokenReader α) : TokenReader (α × String) := do
  let before ← get
  let a ← r
  let after ← get
  return (a, spelling (before.take (before.length - after.length)))

/-! ### Expressions -/

def nullLiteral : Expr ColumnRef := .literal .null

/-- The comparison that a sign stands for, on two levels of precedence. -/
def comparisonSign (strict : Bool) (t : Token) : Option Comparison :=
  if t.kind ≠ .sign then none
  else if strict then
    match t.text with
    | "<" => some .lt
    | "<=" => some .le
    | ">" => some .gt
    | ">=" => some .ge
    | _ => none
  else
    match t.text with
    | "=" | "==" => some .eq
    | "<>" | "!=" => some .ne
    | _ => none

def function? (name : String) : Option Function :=
  match String.ofList (name.toList.map Char.toLower) with
  | "typeof" => some .typeof
  | "length" => some .length
  | _ => none

def isCount (name : String) : Bool := name.toList.map Char.toUpper == "COUNT".toList

def callOf (name : Token) (arguments : List (Expr ColumnRef)) : Expr ColumnRef :=
  match function? name.content, arguments with
  | some f, [e] => .call f e
  | some _, _ => .senseless ⟨.wrongArgumentCount name.content, some name.offset⟩
  | none, _ =>
    if isCount name.content then
      .senseless ⟨.misuse s!"misuse of aggregate: {name.content}()", some name.offset⟩
    else .senseless ⟨.noSuchFunction name.content, some name.offset⟩

/-- Whether a value is one of the values; it alone decides how they are compared. -/
def among (e : Expr ColumnRef) : List (Expr ColumnRef) → Expr ColumnRef
  | [] => .literal (.integer 0)
  | [a] => .compare .eq e (.bare a)
  | a :: as => .or (.compare .eq e (.bare a)) (among e as)

def negateIf (negated : Bool) (e : Expr ColumnRef) : Expr ColumnRef := if negated then .not e else e

inductive Level where
  | disjunction
  | conjunction
  | equality
  | order
  | sum
  | product
  | operand

def Level.inner : Level → Level
  | .disjunction => .conjunction
  | .conjunction => .equality
  | .equality => .order
  | .order => .sum
  | .sum => .product
  | .product | .operand => .operand

def Level.operator? (level : Level) (t : Token) :
    Option (Expr ColumnRef → Expr ColumnRef → Expr ColumnRef) :=
  match level with
  | .disjunction => if t.isWord "OR" then some .or else none
  | .conjunction => if t.isWord "AND" then some .and else none
  | .equality => (comparisonSign false t).map .compare
  | .order => (comparisonSign true t).map .compare
  | .sum =>
    if t.isSign "+" then some (.arithmetic .add)
    else if t.isSign "-" then some (.arithmetic .sub)
    else none
  | .product => if t.isSign "*" then some (.arithmetic .mul) else none
  | .operand => none

/-- The next token, if the function knows it; it is passed then. -/
def known {α : Type} (f : Token → Option α) : TokenReader (Option α) := fun ts =>
  match ts with
  | t :: rest =>
    match f t with
    | some a => .ok (some a, rest)
    | none => .ok (none, ts)
  | [] => .ok (none, [])

mutual

/-- An expression of a level, in at most so many steps. -/
def expression : Nat → Level → TokenReader (Expr ColumnRef)
  | 0, _ => misfit
  | n + 1, .operand => operand n
  | n + 1, level => do
    let a ← expression n level.inner
    operations n level a

def operations : Nat → Level → Expr ColumnRef → TokenReader (Expr ColumnRef)
  | 0, _, _ => misfit
  | n + 1, level, a => do
    match ← known level.operator? with
    | some op =>
      let b ← expression n level.inner
      operations n level (op a b)
    | none =>
      match level with
      | .equality => tests n a
      | _ => return a

/-- What the operators behind a finished test make of it: it stands there like an operand. -/
def behindTest : Nat → Expr ColumnRef → TokenReader (Expr ColumnRef)
  | 0, _ => misfit
  | n + 1, a => do
    let a ← operations n .product a
    let a ← operations n .sum a
    let a ← operations n .order a
    operations n .equality a

/-- What IS, ISNULL, NOTNULL and IN make of their left operand. -/
def tests : Nat → Expr ColumnRef → TokenReader (Expr ColumnRef)
  | 0, _ => misfit
  | n + 1, a => do
    if ← passesWord "ISNULL" then behindTest n (.same a nullLiteral)
    else if ← passesWord "NOTNULL" then behindTest n (.not (.same a nullLiteral))
    else if ← passesWord "IS" then
      let negated ← passesWord "NOT"
      let b ← expression n Level.equality.inner
      operations n .equality (negateIf negated (.same a b))
    else if ← passesWord "IN" then
      let items ← membership n
      behindTest n (among a items)
    else if ← passesWord "NOT" then
      if ← passesWord "NULL" then behindTest n (.not (.same a nullLiteral))
      else
        word "IN"
        let items ← membership n
        behindTest n (.not (among a items))
    else return a

def membership : Nat → TokenReader (List (Expr ColumnRef))
  | 0 => misfit
  | n + 1 => do
    sign "("
    if ← passesSign ")" then return []
    else
      let items ← arguments n
      sign ")"
      return items

def arguments : Nat → TokenReader (List (Expr ColumnRef))
  | 0 => misfit
  | n + 1 => do
    let a ← expression n .disjunction
    if ← passesSign "," then
      let as ← arguments n
      return a :: as
    else return [a]

def operand : Nat → TokenReader (Expr ColumnRef)
  | 0 => misfit
  | n + 1 => do
    match ← known Token.literal? with
    | some v => return .literal v
    | none =>
    if ← passesWord "NOT" then
      let e ← expression n .equality
      return .not e
    else if ← passesWord "NULL" then return nullLiteral
    else if ← passesSign "-" then
      let t? ← known fun t => if t.kind = .number then unsignedAt true t.text.toList else none
      match t? with
      | some (v, _) => return .literal v
      | none =>
        let e ← operand n
        return .arithmetic .sub (.literal (.integer 0)) e
    else if ← passesSign "+" then
      let e ← operand n
      return .plus e
    else if ← passesSign "(" then
      let e ← expression n .disjunction
      sign ")"
      return e
    else
      match ← known fun t => if t.kind = .placeholder then some t.text else none with
      | some name => return .parameter name
      | none =>
      let t ← token Token.isName
      if ← passesSign "(" then
        if ← passesSign "*" then
          sign ")"
          return callOf t []
        else if ← passesSign ")" then return callOf t []
        else
          let items ← arguments n
          sign ")"
          return callOf t items
      else if ← passesSign "." then
        let column ← nameToken
        return .column ⟨some t.content, column.content, false, t.offset⟩
      else return .column ⟨none, t.content, t.text.startsWith "\"", t.offset⟩

end

def expr : TokenReader (Expr ColumnRef) := do
  let n ← bound
  expression (10 * n) .disjunction

def exprAfter (w : String) : TokenReader (Option (Expr ColumnRef)) := do
  if ← passesWord w then
    let e ← expr
    return some e
  else return none

/-! ### Clauses -/

def resultName : TokenReader (Option String) := do
  if ← passesWord "AS" then
    let s ← name
    return some s
  else
    known fun t => if t.isName || t.kind = .text then some t.content else none

/-- Whether the next tokens count the rows; they are passed if they do. -/
def countOfRows : TokenReader (Option String) := fun ts =>
  match ts with
  | a :: b :: c :: d :: rest =>
    if a.kind = .word && isCount a.text && b.isSign "(" && c.isSign "*" && d.isSign ")" then
      .ok (some (spelling [a, b, c, d]), rest)
    else .ok (none, ts)
  | _ => .ok (none, ts)

def resultColumn : TokenReader ResultSpec := do
  if ← passesSign "*" then return .all
  else
    match ← countOfRows with
    | some text =>
      let name ← resultName
      return .count (name.getD text)
    | none =>
      let (e, text) ← spelled expr
      let name ← resultName
      return .value e name text

def direction : TokenReader Direction := do
  if ← passesWord "DESC" then return .descending
  else
    let _ ← passesWord "ASC"
    return .ascending

def sortKey : TokenReader (SortKey ColumnRef) := do
  let e ← expr
  let d ← direction
  return ⟨e, d⟩

def returning : TokenReader (List ResultSpec) := do
  if ← passesWord "RETURNING" then list resultColumn else return []

def conflictWord : TokenReader Conflict := do
  match ← known fun t =>
      [Conflict.abort, .fail, .ignore, .replace, .rollback].find? fun c => t.isWord c.keyword with
  | some c => return c
  | none => misfit

def conflict : TokenReader Conflict := do
  if ← passesWord "OR" then conflictWord else return .abort

def ifNotExists : TokenReader Bool := passesWords "IF" ["NOT", "EXISTS"]

/-! ### Tables -/

/-- A number with a sign in a type name. -/
def signedNumber : TokenReader String := do
  let (_, text) ← spelled do
    if ← passesSign "-" then pure ()
    else
      let _ ← passesSign "+"
    let _ ← token (·.kind = .number)
  return text

/-- The words of a type name, in at most so many steps. -/
def typeWords : Nat → TokenReader (List String)
  | 0 => return []
  | n + 1 => do
    match ← known fun t => if t.isName || t.kind = .text then some t.content else none with
    | some w =>
      let ws ← typeWords n
      return w :: ws
    | none => return []

def typeName : TokenReader String := do
  let words ← typeWords (← bound)
  let text := String.intercalate " " words
  if words.isEmpty then return text
  else if ← passesSign "(" then
    let sizes ← list signedNumber
    sign ")"
    return text ++ "(" ++ String.intercalate "," sizes ++ ")"
  else return text

def defaultValue : TokenReader (Expr ColumnRef) := do
  if ← passesSign "(" then
    let e ← expr
    sign ")"
    return e
  else
    match ← known fun t => if t.isName then some t.content else none with
    | some word => return .column ⟨none, word, true, 0⟩
    | none => do
      let n ← bound
      operand n

/-- Whether the next tokens are two keywords; they are passed if they are. -/
def passesPair (v w : String) : TokenReader Bool := fun ts =>
  match ts with
  | a :: b :: rest => if a.isWord v && b.isWord w then .ok (true, rest) else .ok (false, ts)
  | _ => .ok (false, ts)

/-- Whether a reference that may be checked late is checked late from the start. -/
def initially : TokenReader Bool := do
  if ← passesWord "INITIALLY" then
    if ← passesWord "DEFERRED" then return true
    else
      word "IMMEDIATE"
      return false
  else return false

/-- Whether a reference is checked at the end of the transaction only. -/
def deferral : TokenReader Bool := do
  if ← passesPair "NOT" "DEFERRABLE" then
    let _ ← initially
    return false
  else if ← passesWord "DEFERRABLE" then initially
  else return false

def reference : TokenReader ReferenceSpec := do
  let parent ← name
  sign "("
  let key ← name
  sign ")"
  let deferred ← deferral
  return ⟨parent, key, deferred⟩

/-- The constraints of a column, in at most so many steps. -/
def columnConstraints : Nat → ColumnSpec → TokenReader ColumnSpec
  | 0, c => return c
  | n + 1, c => do
    if ← passesWords "PRIMARY" ["KEY"] then
      let d ← direction
      columnConstraints n { c with primaryKey := true, descending := d == .descending }
    else if ← passesWords "NOT" ["NULL"] then columnConstraints n { c with notNull := true }
    else if ← passesWord "NULL" then columnConstraints n c
    else if ← passesWord "UNIQUE" then columnConstraints n { c with unique := true }
    else if ← passesWord "CHECK" then
      sign "("
      let (condition, text) ← spelled expr
      sign ")"
      columnConstraints n { c with checks := c.checks ++ [⟨text, condition⟩] }
    else if ← passesWord "DEFAULT" then
      let e ← defaultValue
      columnConstraints n { c with default := some e }
    else if ← passesWord "COLLATE" then
      let name ← name
      columnConstraints n { c with collation := some name }
    else if ← passesWord "REFERENCES" then
      let r ← reference
      columnConstraints n { c with references := c.references ++ [r] }
    else return c

def columnSpec : TokenReader ColumnSpec := do
  let name ← name
  let type ← typeName
  columnConstraints (← bound) { name, type }

/-- An option behind the columns of a table: WITHOUT ROWID or STRICT. -/
def tableOption : TokenReader Bool := do
  if ← passesWords "WITHOUT" ["ROWID"] then return true
  else
    word "STRICT"
    return false

def tableOptions : TokenReader (List Bool) := fun ts =>
  match ts with
  | [] => .ok ([], [])
  | t :: _ => if t.isSign ";" then .ok ([], ts) else list tableOption ts

def createTable (temporary : Bool) : TokenReader Command := do
  let ifNotExists ← ifNotExists
  let before ← get
  let name ← objectName
  let start := if name.database.isSome then before.drop 2 else before
  sign "("
  let columns ← list columnSpec
  sign ")"
  let options ← tableOptions
  let after ← get
  return .createTable temporary ifNotExists name columns (options.contains true)
    (options.contains false)
      ("CREATE TABLE " ++ spelling (start.take (start.length - after.length)))

def indexColumn : TokenReader (String × Nat × Direction) := do
  let t ← nameToken
  let d ← direction
  return (t.content, t.offset, d)

def createIndex (unique : Bool) : TokenReader Command := do
  let ifNotExists ← ifNotExists
  let before ← get
  let name ← objectName
  let start := if name.database.isSome then before.drop 2 else before
  word "ON"
  let table ← TokenReader.name
  sign "("
  let columns ← list indexColumn
  sign ")"
  let after ← get
  return .createIndex unique ifNotExists name table columns
    ((if unique then "CREATE UNIQUE INDEX " else "CREATE INDEX ") ++
      spelling (start.take (start.length - after.length)))

def create : TokenReader Command := do
  if ← passesWord "TABLE" then createTable false
  else if ← passesWord "INDEX" then createIndex false
  else if ← passesWord "UNIQUE" then
    word "INDEX"
    createIndex true
  else if ← passes fun t => t.isWord "TEMP" || t.isWord "TEMPORARY" then
    word "TABLE"
    createTable true
  else misfit

/-! ### Rows -/

def columnNames : TokenReader (List String) := do
  sign "("
  let names ← list name
  sign ")"
  return names

def valueRow : TokenReader (List (Expr ColumnRef)) := do
  sign "("
  let values ← list expr
  sign ")"
  return values

def insert : TokenReader Command := do
  let conflict ← conflict
  word "INTO"
  let table ← objectName
  let parenthesis ← passesSign "("
  let columns ← if parenthesis then do
      let names ← list name
      sign ")"
      pure (some names)
    else pure none
  if ← passesWord "VALUES" then
    let rows ← list valueRow
    let returned ← returning
    return .insert conflict table columns rows returned
  else
    word "DEFAULT"
    word "VALUES"
    let returned ← returning
    return .insert conflict table (some []) [[]] returned

def source : TokenReader (Option ObjectName) := do
  if ← passesWord "FROM" then
    let table ← objectName
    return some table
  else return none

def select : TokenReader Command := do
  let distinct ← passesWord "DISTINCT"
  let _ ← if distinct then pure false else passesWord "ALL"
  let results ← list resultColumn
  let table ← source
  let condition ← exprAfter "WHERE"
  let orderBy ← if ← passesWords "ORDER" ["BY"] then list sortKey else pure []
  let limit ← exprAfter "LIMIT"
  return .select distinct results table condition orderBy limit

def assignment : TokenReader (String × Expr ColumnRef) := do
  let column ← name
  sign "="
  let e ← expr
  return (column, e)

def update : TokenReader Command := do
  let conflict ← conflict
  let table ← objectName
  word "SET"
  let set ← list assignment
  let condition ← exprAfter "WHERE"
  let returned ← returning
  return .update conflict table set condition returned

def delete : TokenReader Command := do
  word "FROM"
  let table ← objectName
  let condition ← exprAfter "WHERE"
  let returned ← returning
  return .delete table condition returned

/-! ### Other statements -/

def begin : TokenReader Command := do
  let _ ← passes fun t => ["DEFERRED", "IMMEDIATE", "EXCLUSIVE"].any (t.isWord ·)
  let _ ← passesWord "TRANSACTION"
  return .begin

def pragmaValue : TokenReader Stored := do
  if ← passesSign "-" then
    match ← known fun t => if t.kind = .number then unsignedAt true t.text.toList else none with
    | some (v, _) => return v
    | none => misfit
  else
    let _ ← passesSign "+"
    match ← known Token.literal? with
    | some v => return v
    | none =>
      let t ← token fun t => t.isName || ["ON", "DELETE", "DEFAULT"].any (t.isWord ·)
      return .text t.content

def pragma : TokenReader Command := do
  let name ← objectName
  if ← passesSign "=" then
    let v ← pragmaValue
    return .pragma name.name (some v)
  else if ← passesSign "(" then
    let v ← pragmaValue
    sign ")"
    return .pragma name.name (some v)
  else return .pragma name.name none

def command : TokenReader Command := do
  if ← passesWord "SELECT" then select
  else if ← passesWord "INSERT" then insert
  else if ← passesWord "UPDATE" then update
  else if ← passesWord "DELETE" then delete
  else if ← passesWord "CREATE" then create
  else if ← passesWord "PRAGMA" then pragma
  else if ← passesWord "BEGIN" then begin
  else if ← passes fun t => t.isWord "COMMIT" || t.isWord "END" then
    let _ ← passesWord "TRANSACTION"
    return .commit
  else if ← passesWord "ROLLBACK" then
    let _ ← passesWord "TRANSACTION"
    return .rollback
  else misfit

end TokenReader

/-- The first statement of a text, and the byte at which the next one starts, if there is one.
Semicolons in front of it are passed over. -/
def readStatement (text : String) : Except Complaint (Command × Option Nat) :=
  match (tokens text).dropWhile (·.isSign ";") with
  | [] => .ok (.nothing, none)
  | ts =>
    match TokenReader.command ts with
    | .error c => .error c
    | .ok (command, []) => .ok (command, none)
    | .ok (command, u :: us) =>
      if u.isSign ";" then .ok (command, some (u.offset + 1))
      else .error (TokenReader.complaint (u :: us))

end TypedTables.Engine
