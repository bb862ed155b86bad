/-
Indexes, put together from the server's list, which has one row for each column of an index.

Main statements: `columns_ne_nil_of_mem_assemble` (no index is without columns) and
`pairwise_assemble` (indexes stand in the order of their names, each once).
-/
import TypedSql.Catalog.Column
import TypedSql.Statement.Select
import TypedSql.Text.Order

namespace TypedSql

/-- A column's place in an index. The server tells no order for a column that is hashed. -/
structure IndexColumn where
  column : String
  order : Option SortOrder
  deriving DecidableEq, Repr

/-- An index of a table and its columns in order. -/
structure Index where
  name : String
  isUnique : Bool
  columns : List IndexColumn
  deriving DecidableEq, Repr

/-- A row of the server's list: a column that is part of an index. -/
structure IndexPart where
  index : String
  /-- Where the column stands in the index. -/
  place : UInt32
  /-- Whether the index admits rows that agree on it. -/
  admitsDuplicates : Bool
  column : IndexColumn
  deriving DecidableEq, Repr

/-- A number of 32 bits that a row must have, white space around it aside. -/
def TextRow.requireNumber (r : TextRow) (column : String) : Except CatalogError UInt32 := do
  let text ← r.require column
  match Text.readNumeral? UInt32.size (Text.trim text.toList) with
  | some n => pure (UInt32.ofNat n)
  | none => throw (.introspection (.notANumber column text))

namespace IndexPart

/-- The order that the server tells by a letter. -/
def orderOf : Option String → Option SortOrder
  | some "A" => some .ascending
  | some "D" => some .descending
  | _ => none

/-- Reads a row. There is no part in the row of an expression, which has no column. -/
def ofRow (row : TextRow) : Except CatalogError (Option IndexPart) := do
  let index ← row.require "Key_name"
  let place ← row.requireNumber "Seq_in_index"
  let duplicates ← row.requireNumber "Non_unique"
  pure ((row.get? "Column_name").map fun column =>
    ⟨index, place, duplicates != 0, ⟨column, orderOf (row.get? "Collation")⟩⟩)

end IndexPart

namespace Index

/-- Whether the index is that of the primary key. -/
def isPrimary (i : Index) : Bool :=
  i.name == "PRIMARY"

/-- The parts of an index by their places; parts of one place stay as they are listed. -/
def partsOf (name : String) (parts : List IndexPart) : List IndexPart :=
  (parts.filter fun part => part.index == name).mergeSort fun a b => a.place ≤ b.place

/-- The index of a name. Its first part says whether it is unique. -/
def ofParts (name : String) (parts : List IndexPart) : Index where
  name := name
  isUnique := (partsOf name parts).head?.all fun part => !part.admitsDuplicates
  columns := (partsOf name parts).map IndexPart.column

/-- The indexes that parts belong to. -/
def assemble (parts : List IndexPart) : List Index :=
  (Text.ordered (parts.map IndexPart.index)).map fun name => ofParts name parts

/-- Reads the server's list of indexes. -/
def ofRows (rows : List TextRow) : Except CatalogError (List Index) := do
  let parts ← rows.mapM IndexPart.ofRow
  pure (assemble (parts.filterMap id))

/-! ### Laws -/

theorem mem_partsOf {name : String} {parts : List IndexPart} {part : IndexPart} :
    part ∈ partsOf name parts ↔ part ∈ parts ∧ part.index = name := by
  simp [partsOf]

theorem columns_ne_nil_of_mem_assemble {parts : List IndexPart} {i : Index}
    (h : i ∈ assemble parts) : i.columns ≠ [] := by
  obtain ⟨name, hname, rfl⟩ := List.mem_map.1 h
  obtain ⟨part, hpart, hindex⟩ := List.mem_map.1 (Text.mem_ordered.1 hname)
  have hmem : part ∈ partsOf name parts := mem_partsOf.2 ⟨hpart, hindex⟩
  exact fun hnil => by simp [ofParts, List.ne_nil_of_mem hmem] at hnil

/-- The names strictly increase. -/
theorem pairwise_assemble (parts : List IndexPart) :
    ((assemble parts).map Index.name).Pairwise (· < ·) := by
  have h : (assemble parts).map Index.name = Text.ordered (parts.map IndexPart.index) := by
    simp [assemble, ofParts, Function.comp_def]
  exact h ▸ Text.pairwise_ordered _

end Index

end TypedSql
