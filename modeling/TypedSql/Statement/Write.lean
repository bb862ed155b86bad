/-
Statements that write rows: insert, update and delete. Columns that hold times of writing take the
server's time; the others take bound values.
-/
import TypedSql.Statement.Select

namespace TypedSql

open Lexeme (word mark blank space words placeholder)

/-- The value written to a column. -/
inductive WrittenValue where
  /-- The server's time. -/
  | stamp
  | bound (name : String)
  deriving DecidableEq, Repr

/-- The lexemes of a written value. -/
def WrittenValue.lexemes : WrittenValue → List Lexeme
  | stamp => sqlCall "UTC_TIMESTAMP" []
  | bound name => [placeholder name]

/-- A column and the value written to it. -/
structure Assignment where
  column : String
  value : WrittenValue
  deriving DecidableEq, Repr

/-- The parameter that is bound to a field's column. -/
def Field.parameter (f : Field) : Except CompileError Parameter := do
  if isReservedParameter f.property then throw (.reservedParameter f.property)
  if !isParameterName f.property then throw (.invalidName .var f.property)
  let native ← liftType (f.nativeType Registry.standard)
  Parameter.ofNative f.property native f.maxLength

/-- The assignment of a field, with the parameter it needs. -/
def Assignment.ofField (f : Field) : Except CompileError (Assignment × Option Parameter) := do
  let column ← f.checkedColumn
  if f.isStamped then pure (⟨column, .stamp⟩, none)
  else pure (⟨column, .bound f.property⟩, some (← f.parameter))

/-- The assignments of fields, in order, and the parameters that they need. -/
def assignments (fields : List Field) :
    Except CompileError (List Assignment × List Parameter) := do
  let parts ← fields.mapM Assignment.ofField
  pure (parts.map Prod.fst, parts.filterMap Prod.snd)

/-- The fields that an insert writes: all but those that the server numbers. -/
def RowModel.insertedFields (m : RowModel) : List Field :=
  m.fields.filter fun f => !f.autoIncrement

/-- The fields that an update writes. -/
def RowModel.updatedFields (m : RowModel) : List Field :=
  m.fields.filter fun f => !f.immutable

/-- The lexemes of an insert. -/
def insertLexemes (table : List Lexeme) (written : List Assignment) : List Lexeme :=
  words ["INSERT", "INTO"] ++ [space] ++ table ++ [space, mark "(", blank "\n\t"] ++
    Lexeme.commaLines (written.map fun a => [.name a.column]) ++
    [blank "\n", mark ")", space, word "VALUES", space, mark "(", blank "\n\t"] ++
    Lexeme.commaLines (written.map fun a => a.value.lexemes) ++ [blank "\n", mark ")", mark ";"]

/-- The lexemes of an update. -/
def updateLexemes (table : List Lexeme) (written : List Assignment) (condition : List Lexeme) :
    List Lexeme :=
  [word "UPDATE", space] ++ table ++ [space, word "SET", blank "\n\t"] ++
    Lexeme.commaLines (written.map fun a => binary [.name a.column] (mark "=") a.value.lexemes) ++
    whereLexemes [condition] ++ [mark ";"]

namespace Compiler

/-- Inserts a row. -/
def insert (c : Compiler) (m : RowModel) : Except CompileError Statement := do
  let table ← c.tableLexemes m
  let (written, parameters) ← assignments m.insertedFields
  pure (Statement.ofLexemes (insertLexemes table written) parameters)

/-- Updates the rows that a filter selects. A parameter of the filter that is named like one of a
column is that parameter. -/
def update (c : Compiler) (m : RowModel) (filter : Filter) : Except CompileError Statement := do
  let table ← c.tableLexemes m
  let (written, parameters) ← assignments m.updatedFields
  if written.isEmpty then throw (.invalidModel m.name .nothingToUpdate)
  let condition ← filter.condition m
  let parameters ← addFilterParams parameters filter.params
  pure (Statement.ofLexemes (updateLexemes table written condition) parameters)

/-- Deletes the rows that a filter selects. -/
def delete (c : Compiler) (m : RowModel) (filter : Filter) : Except CompileError Statement := do
  let table ← c.tableLexemes m
  let condition ← filter.condition m
  let parameters ← addFilterParams [] filter.params
  pure (Statement.ofLexemes
    (words ["DELETE", "FROM"] ++ [space] ++ table ++ whereLexemes [condition] ++ [mark ";"])
    parameters)

end Compiler

end TypedSql
