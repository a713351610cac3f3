import TypedTables.Duration
import TypedTables.Engine.Fault
import TypedTables.Text.Quoted

/-!
# Errors

Every operation of the library fails with an `Error`. The causes are data; `Error.message` gives the
text. `Error.isBuildTime` tells the errors that are found before the engine sees a statement: those
of a declaration, of the shape of a statement and of a value.
-/
namespace TypedTables

inductive SchemaFault where
  | noColumns
  | columnName (name : String)
  | noAffinity (column : String)
  | declaredTwice (column : String)
  | unknownColumn (column : String)
  | tableName (name : String)
  | indexName (name : String)
  | indexWithoutColumns (name : String)
  | databaseName (name : String)
  | noClosedDomain (type : String)
  | undeclaredField (column : String)
  /-- A fault that an application reports in its own words. -/
  | custom (message : String)
  deriving DecidableEq

inductive StatementFault where
  | selectsNothing
  | setsNothing
  | returnsNothing
  | emptyPredicate
  | emptyClause
  | emptyFilter
  | zeroBatchSize
  | placeholderName (name : String)
  | reservedPlaceholder (name : String)
  | placeholderShared (name : String)
  | placeholderUndeclared (name : String)
  | placeholderUnused (name : String)
  | positionalPlaceholder
  | unsupportedPlaceholder (sign : Char) (name : String)
  | keysDiffer (what : String) (got expected : List String)
  /-- A fault that an application reports in its own words. -/
  | custom (message : String)
  deriving DecidableEq

inductive ColumnFault where
  | kind (fault : KindFault)
  | noVariantInt (i : Int64)
  | noVariantText (s : String)
  | nullRefused
  | storedNull
  | intOutside (i : Int64) (domain : List Int64)
  | textOutside (s : String) (domain : List String)
  | storedIntOutside (i : Int64) (domain : List Int64)
  | storedTextOutside (s : String) (domain : List String)
  | cannotStore (found : ValueKind) (type : String)
  | doesNotMatch (found : StorageClass) (type : String)
  | secondsOutOfRange (i : Int64)
  | realOutOfRange (x : Binary64)
  | notTimestamp (s : String) (fault : TimestampFault)
  | cannotHoldTimestamp (found : StorageClass)
  | notJson (fault : Json.LocatedFault)
  /-- The words of the codec of a custom type. -/
  | codec (message : String)
  deriving DecidableEq

inductive ValidationFault where
  | column (name : String) (fault : ColumnFault)
  /-- The words of the validation of a record. -/
  | custom (message : String)
  deriving DecidableEq

inductive Error where
  | schema (fault : SchemaFault)
  | statement (fault : StatementFault)
  | validation (fault : ValidationFault)
  /-- A result does not have a column that the record needs. -/
  | resultLacks (column : String)
  /-- A stored row is not a record, for the given reason. -/
  | undecodable (cause : Error)
  /-- A decoding fault that an application reports in its own words. -/
  | decode (message : String)
  /-- The engine refused the statement. -/
  | refused (text : String) (fault : Engine.Fault)
  /-- The engine refused something that is not a statement of a table. -/
  | engine (fault : Engine.Fault)
  | cannotOpen (path : String) (fault : Engine.Fault)
  /-- A connection fault that an application reports in its own words. -/
  | connection (message : String)
  | poolClosed
  | cancelled
  | timeout (limit : Duration)
  | workerPanic (message : String)
  deriving DecidableEq

def marked (name : String) : String := "\x60" ++ name ++ "\x60"

def showIntegers (is : List Int64) : String := Text.bracketed (is.map fun i => toString i.toInt)

def showTexts (ss : List String) : String := Text.bracketed (ss.map Text.quoted)

namespace SchemaFault

def message : SchemaFault → String
  | .noColumns => "a table needs at least one column"
  | .columnName name => s!"invalid column name {marked name}"
  | .noAffinity column => s!"column {marked column} has a custom type and no affinity override"
  | .declaredTwice column => s!"column {marked column} is declared twice"
  | .unknownColumn column => s!"unknown column {marked column}"
  | .tableName name => s!"invalid table name {marked name}"
  | .indexName name => s!"invalid index name {marked name}"
  | .indexWithoutColumns name => s!"index {marked name} has no columns"
  | .databaseName name => s!"invalid schema name {marked name}"
  | .noClosedDomain type => s!"cannot derive a CHECK constraint for {type}"
  | .undeclaredField column => s!"record reports undeclared column {marked column}"
  | .custom message => message

end SchemaFault

namespace StatementFault

def message : StatementFault → String
  | .selectsNothing => "a select needs at least one column"
  | .setsNothing => "an update needs at least one SET column"
  | .returnsNothing => "RETURNING needs at least one column"
  | .emptyPredicate => "empty predicate column set; match every row explicitly instead"
  | .emptyClause => "empty raw WHERE clause"
  | .emptyFilter => "empty equality filter; use Filter::All to match every row"
  | .zeroBatchSize => "batch_size must be positive"
  | .placeholderName name => s!"invalid placeholder name {marked name}"
  | .reservedPlaceholder name =>
    "placeholder " ++ marked (":" ++ name) ++ " uses the reserved " ++ marked "__" ++ " prefix"
  | .placeholderShared name =>
    "placeholder " ++ marked (":" ++ name) ++ " is used by both SET and the WHERE clause"
  | .placeholderUndeclared name =>
    "placeholder " ++ marked (":" ++ name) ++ " in the WHERE clause is not declared"
  | .placeholderUnused name =>
    "placeholder " ++ marked (":" ++ name) ++ " does not appear in the WHERE clause"
  | .positionalPlaceholder =>
    "positional placeholders are not supported in a raw clause; use :name"
  | .unsupportedPlaceholder sign name =>
    s!"unsupported placeholder {marked (sign.toString ++ name)} in raw clause; use :name"
  | .keysDiffer what got expected =>
    what ++ " carry columns " ++ Text.braced (got.map Text.quoted) ++ ", expected " ++
      Text.braced (expected.map Text.quoted)
  | .custom message => message

end StatementFault

namespace ColumnFault

def message : ColumnFault → String
  | .kind fault => fault.message
  | .noVariantInt i => s!"{i.toInt} is not a valid variant"
  | .noVariantText s => s!"{Text.quoted s} is not a valid variant"
  | .nullRefused => "NULL is not allowed for a non-optional column"
  | .storedNull => "stored NULL in a non-optional column"
  | .intOutside i domain => s!"{i.toInt} is not one of {showIntegers domain}"
  | .textOutside s domain => s!"{Text.quoted s} is not one of {showTexts domain}"
  | .storedIntOutside i domain => s!"stored {i.toInt} is not one of {showIntegers domain}"
  | .storedTextOutside s domain => s!"stored {Text.quoted s} is not one of {showTexts domain}"
  | .cannotStore found type => s!"cannot store a {found.name} value as {type}"
  | .doesNotMatch found type => s!"stored {found.name} does not match {type}"
  | .secondsOutOfRange i => s!"{i.toInt} is out of range for a timestamp"
  | .realOutOfRange x => s!"{Layout.plain.write x} is out of range for a timestamp"
  | .notTimestamp s fault => s!"{Text.quoted s} is not an ISO-8601 datetime: {fault.words}"
  | .cannotHoldTimestamp found => s!"{found.name} cannot hold a datetime"
  | .notJson fault => fault.message
  | .codec message => message

end ColumnFault

def ValidationFault.message : ValidationFault → String
  | .column name fault => s!"column {marked name}: {fault.message}"
  | .custom message => message

namespace Error

def message : Error → String
  | .schema fault => "Schema error: " ++ fault.message
  | .statement fault => "Statement error: " ++ fault.message
  | .validation fault => "Validation error: " ++ fault.message
  | .resultLacks column => "Decode error: result has no column " ++ marked column
  | .undecodable cause => "Decode error: " ++ cause.message
  | .decode message => "Decode error: " ++ message
  | .refused text fault =>
    "SQLite error while executing " ++ marked text ++ ": " ++ fault.message
  | .engine fault => fault.message
  | .cannotOpen path fault =>
    "Connection error: failed to open " ++ marked path ++ ": " ++ fault.message
  | .connection message => "Connection error: " ++ message
  | .poolClosed => "Worker pool has been shut down"
  | .cancelled => "Operation cancelled before dispatch"
  | .timeout limit => "Timed out after " ++ limit.text ++ " waiting for a free worker"
  | .workerPanic message => "Worker panicked while running an operation: " ++ message

/-- Whether the error was found before the engine saw a statement. -/
def isBuildTime : Error → Bool
  | .schema _ | .statement _ | .validation _ => true
  | _ => false

def column (name : String) (fault : ColumnFault) : Error := .validation (.column name fault)

/-- The error of a row that cannot be decoded: a fault of the engine stays what it is. -/
def whileDecoding : Error → Error
  | .resultLacks column => .resultLacks column
  | .undecodable cause => .undecodable cause
  | .decode message => .decode message
  | .refused text fault => .refused text fault
  | .engine fault => .engine fault
  | cause => .undecodable cause

end Error

end TypedTables
