import TypedTables.Value

/-!
# What the engine refuses

The causes for which the engine refuses a statement, and their texts.
-/
namespace TypedTables.Engine

inductive Fault where
  | noSuchTable (name : String)
  | noSuchColumn (name : String)
  | noSuchIndex (name : String)
  | noSuchFunction (name : String)
  | noColumnNamed (table column : String)
  | syntaxNear (token : String)
  | unrecognizedToken (token : String)
  | incompleteInput
  | tableExists (name : String)
  | indexExists (name : String)
  | tableNamedLike (name : String)
  | unknownDatabase (name : String)
  | databaseInUse (name : String)
  | tooManyDatabases
  | temporaryNameQualified
  | uniqueFailed (columns : List String)
  | notNullFailed (column : String)
  | checkFailed (text : String)
  | foreignKeyFailed
  | foreignKeyMismatch (table parent : String)
  | noSuchCollation (name : String)
  | cannotStore (stored : StorageClass) (declared column : String)
  | datatypeMismatch
  | primaryKeyMissing (table : String)
  | duplicateColumn (name : String)
  | severalPrimaryKeys (table : String)
  | unknownDatatype (column declared : String)
  | missingDatatype (column : String)
  | valuesForColumns (values columns : Nat)
  | tableColumnsValues (table : String) (columns values : Nat)
  | wrongArgumentCount (function : String)
  | misuse (message : String)
  | transactionOpen
  | noTransaction (verb : String)
  | readOnly
  | cannotOpen (path : String)
  | unknownParameter (name : String)
  | invalidKeyword (word : String)
  | noRows
  | columnType (found : StorageClass) (index : Nat) (name : String)
  /-- A fault at a byte of the text of the statement. -/
  | located (fault : Fault) (text : String) (offset : Nat)
  deriving DecidableEq

def storageName : StorageClass → String
  | .null => "NULL"
  | .integer => "INT"
  | .real => "REAL"
  | .text => "TEXT"
  | .blob => "BLOB"

def Fault.message : Fault → String
  | .noSuchTable name => s!"no such table: {name}"
  | .noSuchColumn name => s!"no such column: {name}"
  | .noSuchIndex name => s!"no such index: {name}"
  | .noSuchFunction name => s!"no such function: {name}"
  | .noColumnNamed table column => s!"table {table} has no column named {column}"
  | .syntaxNear token => "near \"" ++ token ++ "\": syntax error"
  | .unrecognizedToken token => "unrecognized token: \"" ++ token ++ "\""
  | .incompleteInput => "incomplete input"
  | .tableExists name => s!"table {name} already exists"
  | .indexExists name => s!"index {name} already exists"
  | .tableNamedLike name => s!"there is already a table named {name}"
  | .unknownDatabase name => s!"unknown database {name}"
  | .databaseInUse name => s!"database {name} is already in use"
  | .tooManyDatabases => "too many attached databases - max 10"
  | .temporaryNameQualified => "temporary table name must be unqualified"
  | .uniqueFailed columns => "UNIQUE constraint failed: " ++ String.intercalate ", " columns
  | .notNullFailed column => s!"NOT NULL constraint failed: {column}"
  | .checkFailed text => s!"CHECK constraint failed: {text}"
  | .foreignKeyFailed => "FOREIGN KEY constraint failed"
  | .foreignKeyMismatch table parent =>
    "foreign key mismatch - \"" ++ table ++ "\" referencing \"" ++ parent ++ "\""
  | .noSuchCollation name => s!"no such collation sequence: {name}"
  | .cannotStore stored declared column =>
    s!"cannot store {storageName stored} value in {declared} column {column}"
  | .datatypeMismatch => "datatype mismatch"
  | .primaryKeyMissing table => s!"PRIMARY KEY missing on table {table}"
  | .duplicateColumn name => s!"duplicate column name: {name}"
  | .severalPrimaryKeys table =>
    "table \"" ++ table ++ "\" has more than one primary key"
  | .unknownDatatype column declared =>
    "unknown datatype for " ++ column ++ ": \"" ++ declared ++ "\""
  | .missingDatatype column => s!"missing datatype for {column}"
  | .valuesForColumns values columns => s!"{values} values for {columns} columns"
  | .tableColumnsValues table columns values =>
    s!"table {table} has {columns} columns but {values} values were supplied"
  | .wrongArgumentCount function => s!"wrong number of arguments to function {function}()"
  | .misuse message => message
  | .transactionOpen => "cannot start a transaction within a transaction"
  | .noTransaction verb => s!"cannot {verb} - no transaction is active"
  | .readOnly => "attempt to write a readonly database"
  | .cannotOpen path => s!"unable to open database file: {path}"
  | .unknownParameter name => s!"Invalid parameter name: {name}"
  | .invalidKeyword word => "Invalid keyword \"" ++ word ++ "\""
  | .noRows => "Query returned no rows"
  | .columnType found index name =>
    s!"Invalid column type {found.name} at index: {index}, name: {name}"
  | .located fault text offset => fault.message ++ " in " ++ text ++ s!" at offset {offset}"

end TypedTables.Engine
