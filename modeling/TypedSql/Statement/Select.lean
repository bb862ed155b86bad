/-
Statements that read rows: the first rows of a table, a page of rows after a key, and the number of
rows.

A page is given by three parameters: the key after which it starts (NULL for the first page), the
direction, and the greatest number of rows.
-/
import TypedSql.Statement.Table

namespace TypedSql

open Lexeme (word mark blank space words placeholder)

/-- The direction of an order. -/
inductive SortOrder where
  | ascending
  | descending
  deriving DecidableEq, Repr

/-- The word of a direction. -/
def SortOrder.keyword : SortOrder → String
  | ascending => "ASC"
  | descending => "DESC"

/-- An order by one property of a model. -/
structure OrderBy where
  property : String
  order : SortOrder
  deriving DecidableEq, Repr

/-- The order by a property that a model has. -/
def OrderBy.ofModel (m : RowModel) (property : String) (order : SortOrder) :
    Except CompileError OrderBy := do
  let _ ← m.lookup property
  pure ⟨property, order⟩

/-- The parameter that limits the number of rows. -/
def countName : String := "Count"

/-- The parameter after whose value a page starts. -/
def startName : String := "ExclusiveStart"

/-- The parameter that gives the direction of a page. -/
def ascendingName : String := "IsAscending"

/-! ### Parts of a statement that reads rows -/

/-- A column to read, and the property it is read as, where that is not the column's name. -/
structure SelectItem where
  column : String
  property : Option String
  deriving DecidableEq, Repr

namespace SelectItem

/-- The lexemes of an item. -/
def lexemes (i : SelectItem) : List Lexeme :=
  match i.property with
  | none => [.name i.column]
  | some property => [.name i.column, space, word "AS", space, .name property]

/-- The item of a field. -/
def ofField (f : Field) : Except CompileError SelectItem := do
  let column ← f.checkedColumn
  if column = f.property then pure ⟨column, none⟩
  else
    checkName .column f.property
    pure ⟨column, some f.property⟩

end SelectItem

/-- The order in which rows are read. -/
inductive RowOrder where
  | unordered
  | byColumn (column : String) (order : SortOrder)
  /-- By a key in the direction of the page. -/
  | byPage (key : String)
  deriving DecidableEq, Repr

/-- A sort key that counts only in one direction of a page. -/
def pageSortKey (key : String) (order : SortOrder) : List Lexeme :=
  words (match order with
    | .ascending => ["CASE", "WHEN"]
    | .descending => ["CASE", "WHEN", "NOT"]) ++
  [space, placeholder ascendingName, space, word "THEN", space, .name key, space, word "END",
   space, word order.keyword]

/-- The lexemes of an order. -/
def RowOrder.lexemes : RowOrder → List Lexeme
  | unordered => []
  | byColumn column order =>
    blank "\n" :: (words ["ORDER", "BY"] ++ [space, .name column, space, word order.keyword])
  | byPage key =>
    blank "\n" :: (words ["ORDER", "BY"] ++ [blank "\n\t"] ++
      Lexeme.commaLines [pageSortKey key .ascending, pageSortKey key .descending])

/-- The condition that a row is on a page: the page starts at the first row, or the row comes after
the start in the direction of the page. -/
def pageCondition (key : String) : List Lexeme :=
  let start := placeholder startName
  let direction := placeholder ascendingName
  [mark "(", start, space] ++ words ["IS", "NULL"] ++
  [blank "\n\t\t", word "OR", space, mark "(", direction, space, word "AND", space, .name key, space,
   mark ">", space, start, mark ")",
   blank "\n\t\t", word "OR", space, mark "(", word "NOT", space, direction, space, word "AND",
   space, .name key, space, mark "<", space, start, mark ")", mark ")"]

/-- The lexemes of conditions that must all hold. -/
def whereLexemes (conditions : List (List Lexeme)) : List Lexeme :=
  if conditions.isEmpty then []
  else [blank "\n", word "WHERE", space] ++
    Lexeme.joined [blank "\n\t", word "AND", space] conditions

/-- A statement that reads rows. -/
structure Select where
  items : List SelectItem
  table : List Lexeme
  conditions : List (List Lexeme)
  order : RowOrder
  deriving DecidableEq, Repr

/-- The lexemes of a statement that reads rows. -/
def Select.lexemes (s : Select) : List Lexeme :=
  [word "SELECT", blank "\n\t"] ++ Lexeme.commaLines (s.items.map SelectItem.lexemes) ++
    [blank "\n", word "FROM", space] ++ s.table ++ whereLexemes s.conditions ++ s.order.lexemes ++
    [blank "\n", word "LIMIT", space, placeholder countName, mark ";"]

/-! ### Parameters -/

/-- The parameters with those of a filter behind them. A name that is already there keeps its
parameter. -/
def addFilterParams (parameters : List Parameter) :
    List FilterParam → Except CompileError (List Parameter)
  | [] => .ok parameters
  | p :: rest =>
    if parameters.any fun q => q.name == p.name then addFilterParams parameters rest
    else do
      let added ← Parameter.ofHost p.name p.host none
      addFilterParams (parameters ++ [added]) rest

/-- The parameter that limits the number of rows. -/
def countParameter : Except CompileError Parameter :=
  Parameter.ofHost countName (.plain .i32) none

/-- The conditions and parameters of an optional filter. -/
def filterParts (m : RowModel) :
    Option Filter → Except CompileError (List (List Lexeme) × List Parameter)
  | none => .ok ([], [])
  | some f => do
    let condition ← f.condition m
    let parameters ← addFilterParams [] f.params
    pure ([condition], parameters)

/-! ### Statements -/

namespace Compiler

/-- What a statement reads and from which table. -/
def selectHead (c : Compiler) (m : RowModel) :
    Except CompileError (List SelectItem × List Lexeme) := do
  if m.fields.isEmpty then throw (.invalidModel m.name .noFields)
  let items ← m.fields.mapM SelectItem.ofField
  let table ← c.tableLexemes m
  pure (items, table)

/-- The order by a property of a model. -/
def rowOrder (m : RowModel) : Option OrderBy → Except CompileError RowOrder
  | none => .ok .unordered
  | some o => do
    let f ← m.lookup o.property
    pure (.byColumn (← f.checkedColumn) o.order)

/-- Reads at most `@Count` rows. -/
def selectTop (c : Compiler) (m : RowModel) (filter : Option Filter) (order : Option OrderBy) :
    Except CompileError Statement := do
  let (items, table) ← c.selectHead m
  let (conditions, parameters) ← filterParts m filter
  let order ← rowOrder m order
  let count ← countParameter
  pure (Statement.ofLexemes (Select.lexemes ⟨items, table, conditions, order⟩)
    (parameters ++ [count]))

/-- Reads the page of at most `@Count` rows after `@ExclusiveStart`, upwards if `@IsAscending`. The
direction that the order itself gives is not used. -/
def selectPage (c : Compiler) (m : RowModel) (order : OrderBy) (filter : Option Filter) :
    Except CompileError Statement := do
  let keyField ← m.lookup order.property
  let key ← keyField.checkedColumn
  let (items, table) ← c.selectHead m
  let (conditions, parameters) ← filterParts m filter
  let ascending ← Parameter.ofHost ascendingName (.plain .bool) none
  let start ← Parameter.ofHost startName keyField.host.orNull keyField.maxLength
  let count ← countParameter
  pure (Statement.ofLexemes
    (Select.lexemes ⟨items, table, conditions ++ [pageCondition key], .byPage key⟩)
    (parameters ++ [ascending, start, count]))

/-- Counts rows. -/
def count (c : Compiler) (m : RowModel) (filter : Option Filter) :
    Except CompileError Statement := do
  let table ← c.tableLexemes m
  let (conditions, parameters) ← filterParts m filter
  pure (Statement.ofLexemes
    ([word "SELECT", space, word "COUNT", mark "(", mark "*", mark ")", blank "\n", word "FROM",
      space] ++ table ++ whereLexemes conditions ++ [mark ";"]) parameters)

end Compiler

end TypedSql
