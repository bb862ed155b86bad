/-
The condition of a filter: its expression written as lexemes of a statement, over the columns of a
model. A null literal is compared on the right only, and a test for equality with it becomes a null
test. Comparisons and connectives are put in parentheses.
-/
import TypedSql.Filter.Basic
import TypedSql.Model.Basic
import TypedSql.Sql.Lexeme

namespace TypedSql

open Lexeme (word mark placeholder space)

/-- The name of a field's column, checked. -/
def Field.checkedColumn (f : Field) : Except CompileError String := do
  checkName .column f.columnName
  pure f.columnName

/-- The lexeme of a field's column. -/
def Field.columnLexeme (f : Field) : Except CompileError Lexeme := do
  pure (.name (← f.checkedColumn))

/-- The field of a property, or a refusal. -/
def RowModel.lookup (m : RowModel) (property : String) : Except CompileError Field :=
  match m.field? property with
  | some f => .ok f
  | none => .error (.unknownProperty m.name property)

/-- The operator of a comparison. -/
def Comparison.operator : Comparison → String
  | eq => "="
  | ne => "!="
  | lt => "<"
  | le => "<="
  | gt => ">"
  | ge => ">="

/-- The word of a connective. -/
def Connective.keyword : Connective → String
  | and => "AND"
  | or => "OR"

/-- The lexemes of a literal. Only finite numbers can be written, and no text. -/
def Literal.lexemes : Literal → Except CompileError (List Lexeme)
  | null => .ok [word "null"]
  | bool value => .ok [word (if value then "true" else "false")]
  | integer value => .ok [.integer value]
  | number value =>
    if value.isFinite then .ok [.number value] else .error (.invalidExpression (.notFinite value))
  | text _ => .error (.unsafeText .literal)

/-- A call of a function of the server. -/
def sqlCall (function : String) (arguments : List (List Lexeme)) : List Lexeme :=
  word function :: mark "(" :: (Lexeme.commaSeparated arguments ++ [mark ")"])

/-- The words of a null test, after a space. -/
def nullTest (negated : Bool) : List Lexeme :=
  space :: Lexeme.words (if negated then ["IS", "NOT", "NULL"] else ["IS", "NULL"])

/-- An operator between two operands. -/
def binary (left : List Lexeme) (operator : Lexeme) (right : List Lexeme) : List Lexeme :=
  left ++ [space, operator, space] ++ right

/-- The lexemes of a method call, from those of its receiver and argument. -/
def Method.lexemes (method : Method) (receiver argument : List Lexeme) : List Lexeme :=
  let matching (pattern : List (List Lexeme)) : List Lexeme :=
    binary receiver (word "LIKE") (sqlCall "CONCAT" pattern)
  match method with
  | contains => matching [[.anyText], argument, [.anyText]]
  | startsWith => matching [argument, [.anyText]]
  | endsWith => matching [[.anyText], argument]
  | equals false => binary receiver (mark "=") argument
  | equals true => binary (sqlCall "LOWER" [receiver]) (mark "=") (sqlCall "LOWER" [argument])
  | toUpper => sqlCall "UPPER" [receiver]
  | toLower => sqlCall "LOWER" [receiver]
  | hasValue => receiver ++ nullTest true
  | value => receiver

namespace Expr

mutual

/-- The condition that an expression states about the rows of a model. -/
def lexemes (m : RowModel) : Expr → Except CompileError (List Lexeme)
  | field property => do
    let f ← m.lookup property
    pure [← f.columnLexeme]
  | param name => .ok [placeholder name]
  | literal value => value.lexemes
  | now .localTime => .ok (sqlCall "NOW" [])
  | now .utc => .ok (sqlCall "UTC_TIMESTAMP" [])
  | compare op left right =>
    -- a null on the left changes places with what it is compared to
    if left.isNull && !right.isNull then do
      let inner ← match op with
        | .eq => do pure ((← lexemes m right) ++ nullTest false)
        | .ne => do pure ((← lexemes m right) ++ nullTest true)
        | _ => do pure (binary (← lexemes m right) (mark op.converse.operator) (← lexemes m left))
      pure (mark "(" :: (inner ++ [mark ")"]))
    else do
      let first ← lexemes m left
      let inner ← match op, right.isNull with
        | .eq, true => pure (first ++ nullTest false)
        | .ne, true => pure (first ++ nullTest true)
        | _, _ => do pure (binary first (mark op.operator) (← lexemes m right))
      pure (mark "(" :: (inner ++ [mark ")"]))
  | logical op operands => do
    let parts ← lexemesOfList m operands
    pure (mark "(" :: (Lexeme.joined [space, word op.keyword, space] parts ++ [mark ")"]))
  | not operand => do pure (word "NOT" :: space :: (← lexemes m operand))
  | call method receiver arguments => do
    let subject ← lexemes m receiver
    match arguments with
    | [] => pure (method.lexemes subject [])
    | argument :: _ => pure (method.lexemes subject (← lexemes m argument))

/-- The conditions of expressions, from left to right. -/
def lexemesOfList (m : RowModel) : List Expr → Except CompileError (List (List Lexeme))
  | [] => .ok []
  | e :: rest => do
    let first ← lexemes m e
    pure (first :: (← lexemesOfList m rest))

end

end Expr

namespace Filter

/-- The condition of a filter on the rows of a model. -/
def condition (f : Filter) (m : RowModel) : Except CompileError (List Lexeme) :=
  f.expr.lexemes m

/-- The text of a filter's condition. -/
def sql (f : Filter) (m : RowModel) : Except CompileError String := do
  pure (Lexeme.text (← f.condition m))

end Filter

end TypedSql
