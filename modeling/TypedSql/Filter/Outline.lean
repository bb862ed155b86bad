/-
Outlines: expressions written out with a pair of parentheses for every part, as a reader of logs
wants them. Nothing reads an outline back.
-/
import TypedSql.Compile.Error

namespace TypedSql

/-- The outline's word for a comparison. -/
def Comparison.label : Comparison → String
  | eq => "Eq"
  | ne => "NotEq"
  | lt => "Lt"
  | le => "LtEq"
  | gt => "Gt"
  | ge => "GtEq"

/-- The outline's word for a connective. -/
def Connective.label : Connective → String
  | and => "And"
  | or => "Or"

/-- The outline's word for a method. -/
def Method.outlineWord : Method → String
  | equals false => "Equals"
  | equals true => "EqualsIgnoreCase"
  | method => method.label

/-- Parts in parentheses. -/
def parenthesized (parts : List String) : String :=
  "(" ++ " ".intercalate parts ++ ")"

/-- The outline of a literal. -/
def Literal.outline : Literal → String
  | null => "null"
  | bool value => if value then "true" else "false"
  | integer value => parenthesized ["int", toString value.toInt]
  | number value => parenthesized ["float", Number.Style.literal.write Number.binary64 value]
  | text value => parenthesized ["str", value]

namespace Expr

mutual

/-- The outline of an expression. -/
def outline : Expr → String
  | field property => parenthesized ["field", property]
  | param name => parenthesized ["param", name]
  | literal value => value.outline
  | now .localTime => parenthesized ["now", "local"]
  | now .utc => parenthesized ["now", "utc"]
  | compare op left right => parenthesized ["cmp", op.label, outline left, outline right]
  | logical op operands => parenthesized (op.label :: outlines operands)
  | not operand => parenthesized ["not", outline operand]
  | call method receiver arguments =>
    parenthesized ("call" :: method.outlineWord :: outline receiver :: outlines arguments)

/-- The outlines of expressions, in order. -/
def outlines : List Expr → List String
  | [] => []
  | e :: rest => outline e :: outlines rest

end

end Expr

end TypedSql
