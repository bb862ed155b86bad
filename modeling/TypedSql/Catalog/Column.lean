/-
Columns, as the server lists them: one row for each.

Main statement: `read_of_ofRow?` (the types of a column are those of its declaration).
-/
import TypedSql.Catalog.Error
import TypedSql.Model.Basic
import TypedSql.Row.Basic
import TypedSql.Types.Declaration

namespace TypedSql

/-- A value that a row must have. -/
def TextRow.require (r : TextRow) (column : String) : Except CatalogError String :=
  match r.get? column with
  | some value => .ok value
  | none => .error (.introspection (.missingValue column))

/-- A column of a table. -/
structure Column where
  name : String
  /-- The declaration as the server spells it. -/
  declaration : String
  native : NativeType
  length : Option UInt32
  host : HostType
  nullable : Bool
  key : KeyRole
  autoIncrement : Bool
  default : Option String
  deriving DecidableEq, Repr

namespace Column

/-- Whether the column belongs to the primary key. -/
def isPrimary (c : Column) : Bool :=
  c.key == .primary

/-- Whether no two rows agree on the column. -/
def isUnique (c : Column) : Bool :=
  c.key != .none

/-- The part in the keys that the server tells by a word. -/
def keyRoleOf (word : String) : KeyRole :=
  if Text.sameIgnoringCase word "PRI" then .primary
  else if Text.sameIgnoringCase word "UNI" then .unique
  else .none

/-- Reads a row of a list of columns. -/
def ofRow? (types : Registry) (row : TextRow) : Except CatalogError Column := do
  let name ← row.require "Field"
  let declaration ← row.require "Type"
  let nullable := Text.sameIgnoringCase (← row.require "Null") "YES"
  match Declaration.read types declaration nullable with
  | .error e => throw (.type e)
  | .ok meaning =>
    pure {
      name
      declaration
      native := meaning.native
      length := meaning.length
      host := meaning.host
      nullable
      key := keyRoleOf ((row.get? "Key").getD "")
      autoIncrement := (row.get? "Extra").any fun extra =>
        Text.occursIn "auto_increment".toList (Text.lower extra.toList)
      default := row.get? "Default" }

/-! ### Laws -/

theorem isUnique_of_isPrimary {c : Column} (h : c.isPrimary = true) : c.isUnique = true := by
  simp only [isPrimary, beq_iff_eq] at h
  simp [isUnique, h]

/-- The server type, host type and length of a column are those of its declaration. -/
theorem read_of_ofRow? {types : Registry} {row : TextRow} {c : Column}
    (h : ofRow? types row = .ok c) :
    ∃ d, Declaration.read types c.declaration c.nullable = .ok d ∧
      d.native = c.native ∧ d.host = c.host ∧ d.length = c.length := by
  simp only [ofRow?, bind, Except.bind] at h
  split at h <;> try contradiction
  split at h <;> try contradiction
  split at h <;> try contradiction
  split at h <;> try contradiction
  rename_i d hd
  cases h
  exact ⟨d, hd, rfl, rfl, rfl⟩

end Column

end TypedSql
