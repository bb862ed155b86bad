/-
Statements that define tables: create a table, add a column, drop a column. A column is defined the
same way when its table is created and when it is added later.
-/
import TypedSql.Filter.Condition
import TypedSql.Statement.Basic

namespace TypedSql

open Lexeme (word mark blank space words qualified)

/-- A database that statements are built for. -/
structure Compiler where
  database : String
  valid : NameKind.database.admits database = true

namespace Compiler

/-- The compiler of a database. -/
def ofDatabase (database : String) : Except CompileError Compiler :=
  if h : NameKind.database.admits database = true then .ok ⟨database, h⟩
  else .error (.invalidName .database database)

/-- The lexemes of a model's table. -/
def tableLexemes (c : Compiler) (m : RowModel) : Except CompileError (List Lexeme) := do
  checkName .table m.table
  pure (qualified c.database m.table)

end Compiler

/-! ### Columns -/

/-- The definition of a column. -/
structure ColumnDefinition where
  column : String
  declaration : String
  nullable : Bool
  autoIncrement : Bool
  /-- The server's time is the default value. -/
  defaultsToNow : Bool
  deriving DecidableEq, Repr

namespace ColumnDefinition

/-- The lexemes of a definition. -/
def lexemes (d : ColumnDefinition) : List Lexeme :=
  [.name d.column, space, word d.declaration, space] ++
    words (if d.nullable then ["NULL"] else ["NOT", "NULL"]) ++
    (if d.autoIncrement then [space, word "AUTO_INCREMENT"] else []) ++
    (if d.defaultsToNow then space :: words ["DEFAULT", "CURRENT_TIMESTAMP"] else [])

/-- The definition of a field's column. Only times can default to the server's time. -/
def ofField (f : Field) : Except CompileError ColumnDefinition := do
  let native ← liftType (f.nativeType Registry.standard)
  let column ← f.checkedColumn
  let declaration ← liftType (Declaration.write Registry.standard native f.maxLength)
  pure {
    column
    declaration
    nullable := f.host.nullable
    autoIncrement := f.autoIncrement
    defaultsToNow := f.isStamped && (native == .dateTime || native == .timestamp) }

end ColumnDefinition

/-! ### Creating a table -/

/-- A key of a table. -/
inductive KeyDefinition where
  | primary (columns : List String)
  | unique (index column : String)
  deriving DecidableEq, Repr

/-- The lexemes of a key. -/
def KeyDefinition.lexemes : KeyDefinition → List Lexeme
  | primary columns =>
    words ["PRIMARY", "KEY"] ++ [space, mark "("] ++
      Lexeme.commaSeparated (columns.map fun c => [.name c]) ++ [mark ")"]
  | unique index column =>
    words ["UNIQUE", "KEY"] ++ [space, .name index, space, mark "(", .name column, mark ")"]

/-- A table definition: its columns and its keys. -/
structure TableDefinition where
  columns : List ColumnDefinition
  keys : List KeyDefinition
  deriving DecidableEq, Repr

namespace TableDefinition

/-- The primary key of a model, if it has one. -/
def primaryKey (m : RowModel) : Except CompileError (List KeyDefinition) := do
  let columns ← m.primaryKey.mapM Field.checkedColumn
  pure (if columns.isEmpty then [] else [.primary columns])

/-- The key of a unique column. -/
def uniqueKey (f : Field) : Except CompileError KeyDefinition := do
  let index := "UQ_" ++ f.columnName
  checkName .index index
  pure (.unique index f.columnName)

/-- The definition of a model's table. -/
def ofModel (m : RowModel) : Except CompileError TableDefinition := do
  if m.fields.isEmpty then throw (.invalidModel m.name .noFields)
  let columns ← m.fields.mapM ColumnDefinition.ofField
  let primary ← primaryKey m
  let unique ← (m.fields.filter fun f => f.isUnique && !f.isPrimary).mapM uniqueKey
  pure ⟨columns, primary ++ unique⟩

/-- The lexemes between the parentheses of a table definition. -/
def lexemes (d : TableDefinition) : List Lexeme :=
  Lexeme.commaLines (d.columns.map ColumnDefinition.lexemes ++ d.keys.map KeyDefinition.lexemes)

end TableDefinition

namespace Compiler

/-- Creates the table of a model. -/
def createTable (c : Compiler) (m : RowModel) : Except CompileError Statement := do
  let definition ← TableDefinition.ofModel m
  let table ← c.tableLexemes m
  pure (Statement.ofLexemes
    (words ["CREATE", "TABLE"] ++ [space] ++ table ++ [space, mark "(", blank "\n\t"] ++
      definition.lexemes ++ [blank "\n", mark ")", mark ";"]) [])

end Compiler

/-! ### Changing a table -/

/-- The place of an added column. -/
inductive ColumnPosition where
  | first
  | after (column : String)
  deriving DecidableEq, Repr

namespace ColumnPosition

/-- The lexemes of a place. -/
def lexemes : ColumnPosition → List Lexeme
  | first => [word "FIRST"]
  | after column => [word "AFTER", space, .name column]

/-- The place behind the field in front of the one at `index`. -/
def ofIndex (m : RowModel) (index : Nat) : Except CompileError ColumnPosition :=
  match index with
  | 0 => .ok .first
  | previous + 1 =>
    match m.fields[previous]? with
    | some f => do pure (.after (← f.checkedColumn))
    | none => .ok .first

end ColumnPosition

/-- The start of a change to a table. -/
def alterTable (table : List Lexeme) : List Lexeme :=
  words ["ALTER", "TABLE"] ++ [space] ++ table ++ [blank "\n\t"]

namespace Compiler

/-- Adds the column of a property behind the column of the property before it. -/
def addColumn (c : Compiler) (m : RowModel) (property : String) :
    Except CompileError Statement := do
  match m.index? property with
  | none => throw (.unknownProperty m.name property)
  | some index =>
    let f ← m.lookup property
    let position ← ColumnPosition.ofIndex m index
    let table ← c.tableLexemes m
    let definition ← ColumnDefinition.ofField f
    pure (Statement.ofLexemes
      (alterTable table ++ words ["ADD", "COLUMN"] ++ [space] ++ definition.lexemes ++ [space] ++
        position.lexemes ++ [mark ";"]) [])

end Compiler

/-- Drops a column, by names alone. -/
def dropColumn (database table column : String) : Except CompileError Statement := do
  checkName .database database
  checkName .table table
  checkName .column column
  pure (Statement.ofLexemes
    (alterTable (qualified database table) ++ words ["DROP", "COLUMN"] ++
      [space, .name column, mark ";"]) [])

end TypedSql
