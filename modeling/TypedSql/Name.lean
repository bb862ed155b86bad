/-
Names that may be quoted in a statement: 1 to 64 bytes of ASCII letters, digits, `$` and `_`. A
variable name may hold dots as well. The rule is narrower than what the server admits.

Main statement: `admits_iff` (what a name of each kind is made of).
-/
import TypedSql.Text.Letter

namespace TypedSql

/-- What a name is the name of. -/
inductive NameKind where
  | database
  | table
  | column
  | index
  | var
  | procedure
  deriving DecidableEq, Repr

namespace NameKind

/-- The kind's name in reports. -/
def text : NameKind → String
  | database => "database"
  | table => "table"
  | column => "column"
  | index => "index"
  | var => "variable"
  | procedure => "procedure"

/-- The longest name, in bytes. -/
def maxLength : Nat := 64

/-- The characters of a name. -/
def admitsChar (kind : NameKind) (c : Char) : Bool :=
  Text.isIdentifierChar c || (kind == var && c == '.')

/-- Whether a text is a name of this kind. -/
def admits (kind : NameKind) (name : String) : Bool :=
  !name.isEmpty && name.utf8ByteSize ≤ maxLength && name.toList.all kind.admitsChar

theorem admits_iff {kind : NameKind} {name : String} :
    kind.admits name = true ↔
      name ≠ "" ∧ name.utf8ByteSize ≤ maxLength ∧ ∀ c ∈ name.toList, kind.admitsChar c = true := by
  simp [admits, and_assoc]

end NameKind

/-- The parameters that statements use for paging: the row limit, the key after which a page
starts, and the direction. -/
def reservedParameters : List String :=
  ["Count", "ExclusiveStart", "IsAscending"]

/-- Whether a parameter name is taken by paging, in any letter case. -/
def isReservedParameter (name : String) : Bool :=
  reservedParameters.any fun reserved => Text.sameIgnoringCase reserved name

/-- Whether a text may name a parameter: a variable name without dots. -/
def isParameterName (name : String) : Bool :=
  NameKind.var.admits name && !name.toList.contains '.'

end TypedSql
