/-
Rows as texts: the columns of a result and, for each, a text or NULL. Columns are found by name in
any letter case, the first match counting.
-/
import TypedSql.Row.Value
import TypedSql.Text.Letter

namespace TypedSql

/-- A row of texts. There may be more or fewer values than columns. -/
structure TextRow where
  columns : List String
  values : List (Option String)
  deriving DecidableEq, Repr

namespace TextRow

/-- The row of a result. A value that has been taken out reads as NULL. -/
def ofCells (cells : List (String × Option Value)) : TextRow :=
  ⟨cells.map Prod.fst, cells.map fun cell => cell.2.bind Value.text?⟩

/-- The number of values. -/
def size (r : TextRow) : Nat :=
  r.values.length

/-- Whether there is no value. -/
def isEmpty (r : TextRow) : Bool :=
  r.values.isEmpty

/-- The text at a place; none for NULL and where there is no value. -/
def at? (r : TextRow) (index : Nat) : Option String :=
  r.values[index]?.join

/-- The text of a column; none for NULL and where there is no such column. -/
def get? (r : TextRow) (column : String) : Option String :=
  (r.columns.findIdx? (Text.sameIgnoringCase column)).bind r.at?

/-- Whether there is a column of a name. -/
def hasColumn (r : TextRow) (column : String) : Bool :=
  r.columns.any (Text.sameIgnoringCase column)

end TextRow

end TypedSql
