/-
The stored form of a statement: a JSON document with its text and parameters.
-/
import TypedSql.Json.Printer
import TypedSql.Json.Reader
import TypedSql.Statement.Basic

namespace TypedSql

open Json (entry)

namespace Direction

/-- The name of a direction in stored statements. -/
def label : Direction → String
  | input => "In"
  | output => "Out"
  | both => "InOut"

/-- The direction of a name. -/
def ofLabel? (s : String) : Option Direction :=
  [input, output, both].find? fun d => d.label == s

/-- Reads a direction: its name, alone or as the key of a null. -/
def ofJson? : Json → Option Direction
  | .string (some s) => ofLabel? s
  | .object [(some s, .null)] => ofLabel? s
  | _ => none

theorem ofLabel?_label (d : Direction) : ofLabel? d.label = some d := by
  cases d <;> decide

end Direction

namespace Parameter

/-- A length or null. -/
def lengthJson (length : Option UInt32) : Json :=
  length.elim .null fun n => Json.ofNat n.toNat

/-- Reads a length; none where it is null or missing. -/
def readLength? : Option Json → Option (Option UInt32)
  | none => some none
  | some .null => some none
  | some j => (j.toNat? UInt32.size).map fun n => some (UInt32.ofNat n)

/-- The stored form of a parameter. -/
def toJson (p : Parameter) : Json :=
  .object [entry "name" (.ofText p.name), entry "native_type_name" (.ofText p.typeName),
    entry "length" (lengthJson p.length), entry "direction" (.ofText p.direction.label)]

/-- Reads a stored parameter. -/
def ofJson? (j : Json) : Option Parameter := do
  match ← j.fields? ["name", "native_type_name", "length", "direction"] false with
  | [name, typeName, length, direction] =>
    pure ⟨← (← name).toText?, ← (← typeName).toText?, ← readLength? length,
      ← Direction.ofJson? (← direction)⟩
  | _ => none

end Parameter

namespace Statement

/-- The stored form of a statement. -/
def toJson (s : Statement) : Json :=
  .object [entry "text" (.ofText s.text),
    entry "parameters" (.array (s.parameters.map Parameter.toJson))]

/-- The items of an array. -/
def items? : Json → Option (List Json)
  | .array items => some items
  | _ => none

/-- Reads a stored statement from a document. -/
def ofJson? (j : Json) : Option Statement := do
  match ← j.fields? ["text", "parameters"] false with
  | [text, parameters] =>
    pure ⟨← (← text).toText?, ← (← items? (← parameters)).mapM Parameter.ofJson?⟩
  | _ => none

/-- Writes a statement as text. -/
def store (s : Statement) : String :=
  s.toJson.text

/-- Reads a stored statement. -/
def load? (text : String) : Option Statement := do
  ofJson? (← Json.read? text)

end Statement

end TypedSql
