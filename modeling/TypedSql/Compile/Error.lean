/-
Why a filter, model or statement is refused. Every refusal is found before anything is sent to the
server and depends on the input alone.
-/
import TypedSql.Filter.Expr
import TypedSql.Name
import TypedSql.Number.Style
import TypedSql.Types.Error

namespace TypedSql

/-- Text that must not reach a statement. -/
inductive UnsafeText where
  /-- A quotation mark in the text of a filter. -/
  | quotation (position : Nat)
  /-- A text literal in an expression. -/
  | literal
  deriving DecidableEq, Repr

/-- Expressions that mean nothing. -/
inductive ExprDefect where
  | tooDeep (limit : Nat)
  | emptyConnective
  | wrongArity (method : Method) (found : Nat)
  /-- A parameter that is named like the row. -/
  | rowNamedLike (parameter : String)
  | notFinite (value : Number.BinaryNumber)
  deriving DecidableEq, Repr

/-- Models that a statement cannot be built for. -/
inductive ModelDefect where
  | noFields
  | nothingToUpdate
  deriving DecidableEq, Repr

/-- What is wrong at one place in the text of a filter. -/
inductive SyntaxFault where
  | unexpectedCharacter (c : Char)
  | integerOutOfRange (digits : String)
  | expected (what : String)
  | strayMinus
  | unsupportedMember (name : String)
  | unsupportedMethod (name : String)
  | unsupportedClock (name : String)
  | notAComparer (name : String)
  | tooDeep (limit : Nat)
  | trailingInput
  deriving DecidableEq, Repr

/-- Refusals of the compiler. -/
inductive CompileError where
  | invalidName (kind : NameKind) (name : String)
  | reservedParameter (name : String)
  | unsafeText (text : UnsafeText)
  | unknownProperty (model property : String)
  | unknownParameter (name : String)
  | unusedParameter (name : String)
  | duplicateParameter (name : String)
  | tooManyParameters (found limit : Nat)
  | invalidExpression (defect : ExprDefect)
  | invalidModel (model : String) (defect : ModelDefect)
  /-- A fault in the text of a filter, at a byte of that text. -/
  | parse (position : Nat) (fault : SyntaxFault)
  | type (error : TypeError)
  deriving DecidableEq, Repr

/-- The report of a method. -/
def Method.label : Method → String
  | contains => "Contains"
  | startsWith => "StartsWith"
  | endsWith => "EndsWith"
  | equals false => "Equals \x7b ignore_case: false \x7d"
  | equals true => "Equals \x7b ignore_case: true \x7d"
  | toUpper => "ToUpper"
  | toLower => "ToLower"
  | hasValue => "HasValue"
  | value => "Value"

/-- The report of unsafe text. -/
def UnsafeText.message : UnsafeText → String
  | quotation position => "quote character at position " ++ toString position
  | literal => "text literals must be bound as parameters"

/-- The report of nesting beyond a limit. -/
def tooDeepMessage (limit : Nat) : String :=
  "expression nested deeper than " ++ toString limit ++ " levels"

/-- The report of an expression's defect. -/
def ExprDefect.message : ExprDefect → String
  | tooDeep limit => tooDeepMessage limit
  | emptyConnective => "logical operator without operands"
  | wrongArity method found =>
    method.label ++ " takes " ++ toString method.arity ++ " argument(s), got " ++ toString found
  | rowNamedLike parameter => "parameter '" ++ parameter ++ "' has the same name as the row"
  | notFinite value => "non-finite number " ++ Number.Style.plain.write Number.binary64 value

/-- The report of a model's defect. -/
def ModelDefect.message : ModelDefect → String
  | noFields => "no fields"
  | nothingToUpdate => "no mutable columns to update"

/-- The report of a fault in the text of a filter. -/
def SyntaxFault.message : SyntaxFault → String
  | unexpectedCharacter c => "unexpected character '" ++ String.ofList [c] ++ "'"
  | integerOutOfRange digits => "integer out of range '" ++ digits ++ "'"
  | expected what => "expected " ++ what
  | strayMinus => "'-' is only supported before a number"
  | unsupportedMember name => "unsupported member '" ++ name ++ "'"
  | unsupportedMethod name => "unsupported method '" ++ name ++ "'"
  | unsupportedClock name => "unsupported clock '" ++ name ++ "'"
  | notAComparer name => "expected a string comparer, found '" ++ name ++ "'"
  | tooDeep limit => tooDeepMessage limit
  | trailingInput => "unexpected trailing input"

namespace CompileError

/-- The report of a refusal. -/
def message : CompileError → String
  | invalidName kind name => "Invalid " ++ kind.text ++ " name: '" ++ name ++ "'"
  | reservedParameter name => "Parameter name '" ++ name ++ "' is reserved"
  | unsafeText text => "Unsafe filter expression: " ++ text.message
  | unknownProperty model property =>
    "Row model '" ++ model ++ "' has no property '" ++ property ++ "'"
  | unknownParameter name => "Filter parameter '" ++ name ++ "' is not declared"
  | unusedParameter name => "Filter parameter '" ++ name ++ "' is declared but never used"
  | duplicateParameter name => "Filter parameter '" ++ name ++ "' is declared more than once"
  | tooManyParameters found limit =>
    "Filter declares " ++ toString found ++ " parameters (max " ++ toString limit ++ ")"
  | invalidExpression defect => "Invalid filter expression: " ++ defect.message
  | invalidModel model defect => "Invalid row model '" ++ model ++ "': " ++ defect.message
  | parse position fault =>
    "Filter parse error at " ++ toString position ++ ": " ++ fault.message
  | type error => "Type error: " ++ error.message

end CompileError

/-- Checks that a text is a name of a kind. -/
def checkName (kind : NameKind) (name : String) : Except CompileError Unit :=
  if kind.admits name then .ok () else .error (.invalidName kind name)

/-- A failure of types, as a refusal of the compiler. -/
def liftType {α : Type} (result : Except TypeError α) : Except CompileError α :=
  match result with
  | .ok a => .ok a
  | .error e => .error (.type e)

end TypedSql
