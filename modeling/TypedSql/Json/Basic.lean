/-
JSON documents. A number is kept as it is written, since only whole numbers are read from stored
forms; a string whose escapes do not spell text has no value, which matters only where it is read.
-/
import TypedSql.Types.HostType

namespace TypedSql

/-- A number as it is written: a sign, digits, and whether a fraction or exponent follows. -/
structure JsonNumber where
  negative : Bool
  digits : List Char
  whole : Bool
  deriving DecidableEq, Repr

/-- A JSON document. -/
inductive Json where
  | null
  | bool (value : Bool)
  | number (value : JsonNumber)
  /-- A string; none where its escapes hold half of a surrogate pair. -/
  | string (value : Option String)
  | array (items : List Json)
  /-- The entries of an object in order. -/
  | object (entries : List (Option String × Json))
  deriving Repr

instance : HostValue Json := ⟨.plain .json⟩

namespace Json

/-- The document of a natural number. -/
def ofNat (n : Nat) : Json :=
  .number ⟨false, Nat.toDigits 10 n, true⟩

/-- The document of a text. -/
def ofText (s : String) : Json :=
  .string (some s)

/-- An entry of an object. -/
def entry (key : String) (value : Json) : Option String × Json :=
  (some key, value)

end Json

end TypedSql
