/-
Filters: an expression together with the parameters that it uses, both checked. The expression of a
filter names declared parameters only, uses all of them, holds no text, and is at most 256 levels
deep.
-/
import TypedSql.Compile.Error

namespace TypedSql

/-- A parameter that a filter declares. -/
structure FilterParam where
  name : String
  host : HostType
  deriving DecidableEq, Repr

/-- The most parameters of one filter. -/
def maxFilterParams : Nat := 5

/-- The depth of the deepest node of an expression, the root having depth zero. -/
def maxExprDepth : Nat := 256

/-- Words that the text of a filter reads as literals, clocks or operators. -/
def lambdaWords : List String :=
  ["null", "true", "false", "DateTime", "DateTimeOffset", "AndAlso", "OrElse"]

/-! ### Parameters -/

/-- Checks the name of one parameter against the rules and the names before it. -/
def checkParam (earlier : List String) (name : String) : Except CompileError Unit :=
  if isReservedParameter name then .error (.reservedParameter name)
  else if !isParameterName name || lambdaWords.contains name then
    .error (.invalidName .var name)
  else if earlier.contains name then .error (.duplicateParameter name)
  else .ok ()

/-- Checks names one after the other. -/
def checkParamsFrom (earlier : List String) : List String → Except CompileError Unit
  | [] => .ok ()
  | name :: rest => do
    checkParam earlier name
    checkParamsFrom (earlier ++ [name]) rest

/-- Checks the parameters of a filter: first how many there are. -/
def checkParams (params : List FilterParam) : Except CompileError Unit :=
  if maxFilterParams < params.length then
    .error (.tooManyParameters params.length maxFilterParams)
  else checkParamsFrom [] (params.map FilterParam.name)

/-! ### Expressions -/

namespace Expr

/-- Checks a node on its own. -/
def checkNode (declared : List String) : Expr → Except CompileError Unit
  | param name => if declared.contains name then .ok () else .error (.unknownParameter name)
  | literal (.text _) => .error (.unsafeText .literal)
  | logical _ [] => .error (.invalidExpression .emptyConnective)
  | call method _ arguments =>
    if arguments.length = method.arity then .ok ()
    else .error (.invalidExpression (.wrongArity method arguments.length))
  | _ => .ok ()

mutual

/-- Checks a node at a depth, then its parts from left to right. -/
def check (declared : List String) (depth : Nat) (e : Expr) : Except CompileError Unit :=
  if maxExprDepth < depth then .error (.invalidExpression (.tooDeep maxExprDepth))
  else
    match checkNode declared e with
    | .error refusal => .error refusal
    | .ok () =>
      match e with
      | field _ | param _ | literal _ | now _ => .ok ()
      | compare _ left right => do
        check declared (depth + 1) left
        check declared (depth + 1) right
      | logical _ operands => checkList declared (depth + 1) operands
      | not operand => check declared (depth + 1) operand
      | call _ receiver arguments => do
        check declared (depth + 1) receiver
        checkList declared (depth + 1) arguments

/-- Checks expressions from left to right. -/
def checkList (declared : List String) (depth : Nat) : List Expr → Except CompileError Unit
  | [] => .ok ()
  | e :: rest => do
    check declared depth e
    checkList declared depth rest

end

mutual

/-- The parameters that an expression names, from left to right. -/
def paramNames : Expr → List String
  | param name => [name]
  | field _ | literal _ | now _ => []
  | compare _ left right => paramNames left ++ paramNames right
  | logical _ operands => paramNamesOfList operands
  | not operand => paramNames operand
  | call _ receiver arguments => paramNames receiver ++ paramNamesOfList arguments

/-- The parameters that a list of expressions names. -/
def paramNamesOfList : List Expr → List String
  | [] => []
  | e :: rest => paramNames e ++ paramNamesOfList rest

end

end Expr

/-! ### Filters -/

/-- A checked filter. -/
structure Filter where
  expr : Expr
  params : List FilterParam
  deriving Repr

namespace Filter

/-- The filter of an expression with parameters, if both pass the checks. -/
def ofExpr (expr : Expr) (params : List FilterParam) : Except CompileError Filter := do
  checkParams params
  expr.check (params.map FilterParam.name) 0
  let used := expr.paramNames
  match params.find? fun p => !used.contains p.name with
  | some unused => throw (.unusedParameter unused.name)
  | none => pure ⟨expr, params⟩

end Filter

end TypedSql
