/-
Row models: the table that rows of one type live in, and the fields of that type in order. A field
is a property of the application's type together with what the column needs to know about it.
-/
import TypedSql.Model.ColumnName
import TypedSql.Types.Registry

namespace TypedSql

/-- The part a column plays in the keys of its table. A primary key column is unique. -/
inductive KeyRole where
  | none
  | unique
  | primary
  deriving DecidableEq, Repr

/-- One property of a row type. -/
structure Field where
  /-- The name that the application uses. -/
  property : String
  host : HostType
  /-- Column name, where it is not the default one. -/
  column : Option String := Option.none
  maxLength : Option UInt32 := Option.none
  /-- Server type, where it is not the one of the host type. -/
  native : Option NativeType := Option.none
  key : KeyRole := .none
  /-- The server numbers the rows. -/
  autoIncrement : Bool := false
  /-- Updates leave the column alone. -/
  immutable : Bool := false
  /-- Holds the time at which the row was made. -/
  created : Bool := false
  /-- Holds the time at which the row was last written. -/
  updated : Bool := false
  deriving DecidableEq, Repr

namespace Field

/-- The name of the field's column. -/
def columnName (f : Field) : String :=
  f.column.getD (upperSnake f.property)

/-- Whether the column belongs to the primary key. -/
def isPrimary (f : Field) : Bool :=
  f.key == .primary

/-- Whether no two rows agree on the column. -/
def isUnique (f : Field) : Bool :=
  f.key != .none

/-- Whether the server stamps the column with its time instead of taking a value. -/
def isStamped (f : Field) : Bool :=
  f.created || f.updated

/-- The column's server type. -/
def nativeType (f : Field) (r : Registry) : Except TypeError NativeType :=
  match f.native with
  | some native => .ok native
  | none => r.nativeOf f.host

theorem isUnique_of_isPrimary {f : Field} (h : f.isPrimary = true) : f.isUnique = true := by
  simp only [isPrimary, beq_iff_eq] at h
  simp [isUnique, h]

end Field

/-- A type of rows. -/
structure RowModel where
  name : String
  table : String
  fields : List Field
  deriving DecidableEq, Repr

namespace RowModel

/-- The first field of a property. -/
def field? (m : RowModel) (property : String) : Option Field :=
  m.fields.find? fun f => f.property == property

/-- The place of a property among the fields. -/
def index? (m : RowModel) (property : String) : Option Nat :=
  m.fields.findIdx? fun f => f.property == property

/-- The primary key's fields, in order. -/
def primaryKey (m : RowModel) : List Field :=
  m.fields.filter Field.isPrimary

theorem property_of_field? {m : RowModel} {property : String} {f : Field}
    (h : m.field? property = some f) : f.property = property := by
  simpa using List.find?_some h

end RowModel

end TypedSql
