/-
Binding: the values of a statement's placeholders, put into the order in which the placeholders
stand in its text. The server takes values by place, so each placeholder becomes a question mark; a
name that stands twice is bound twice.
-/
import TypedSql.Row.Value
import TypedSql.Statement.Basic

namespace TypedSql

/-- Values by parameter name, each name once. -/
structure Bindings where
  entries : List (String × Value)
  deriving DecidableEq, Repr

namespace Bindings

/-- No values. -/
def empty : Bindings :=
  ⟨[]⟩

/-- Adds a value, in place of an earlier one of the same name. -/
def insert (b : Bindings) (name : String) (value : Value) : Bindings :=
  ⟨(name, value) :: b.entries.filter fun e => e.1 != name⟩

/-- Adds values one after the other. -/
def ofList (entries : List (String × Value)) : Bindings :=
  entries.foldl (fun b e => b.insert e.1 e.2) empty

/-- The value of a name. -/
def get? (b : Bindings) (name : String) : Option Value :=
  b.entries.lookup name

/-- The number of names with a value. -/
def size (b : Bindings) : Nat :=
  b.entries.length

/-- Whether there is no value. -/
def isEmpty (b : Bindings) : Bool :=
  b.entries.isEmpty

end Bindings

/-- A statement's text with question marks, and the values for them. -/
structure BoundStatement where
  text : String
  values : List Value
  deriving DecidableEq, Repr

namespace Statement

/-- Binds values to a statement, or names the first placeholder that has none. -/
def bind (s : Statement) (b : Bindings) : Except String BoundStatement :=
  match s.placeholders.find? fun name => (b.get? name).isNone with
  | some missing => .error missing
  | none =>
    .ok ⟨substitute (fun _ => ['?']) s.text, s.placeholders.filterMap b.get?⟩

end Statement

end TypedSql
