/-
The text of a filter, such as `row => row.Id > 123 && (row.Name.Contains(x) || row.Gone == null)`.

The grammar, from the loosest to the tightest form:

    lambda     := (row | '(' row ')') '=>' or
    or         := and ('||' and)*
    and        := comparison ('&&' comparison)*
    comparison := unary (operator unary)?
    unary      := '!' unary | '-' number | member
    member     := operand ('.' property | '.' method '(' arguments ')')*
    operand    := '(' or ')' | number | word | clock | row '.' property | parameter

Every negation, parenthesis and argument opens a level; at most 64 levels are open at once. The
functions recurse on the levels that are left.
-/
import TypedSql.Filter.Basic
import TypedSql.Filter.Token

namespace TypedSql

namespace Lambda

/-- The most levels that are open at once, the whole expression among them. -/
def maxLevels : Nat := 64

/-- What names mean in the body of a filter, and the length of its text in bytes. -/
structure Scope where
  row : String
  params : List String
  length : Nat
  deriving DecidableEq, Repr

/-- What a reader leaves of the tokens. -/
abbrev Reader (α : Type) := List Placed → Except CompileError (α × List Placed)

/-- A fault at the next token, or at the end of the text. -/
def fault {α : Type} (length : Nat) (rest : List Placed) (f : SyntaxFault) :
    Except CompileError α :=
  match rest with
  | [] => .error (.parse length f)
  | next :: _ => .error (.parse next.position f)

/-- Takes one token. -/
def expect (length : Nat) (token : Token) (what : String) : Reader Unit
  | next :: rest =>
    if next.token = token then .ok ((), rest) else fault length (next :: rest) (.expected what)
  | [] => fault length [] (.expected what)

/-- Takes a word. -/
def word (length : Nat) : Reader String
  | ⟨_, .word name⟩ :: rest => .ok (name, rest)
  | rest => fault length rest (.expected "identifier")

/-- Takes the name of the row, with or without parentheses, and the arrow. -/
def head (length : Nat) : Reader String
  | ⟨_, .openParen⟩ :: rest => do
    let (row, rest) ← word length rest
    let ((), rest) ← expect length .closeParen "')'" rest
    let ((), rest) ← expect length .arrow "'=>'" rest
    pure (row, rest)
  | rest => do
    let (row, rest) ← word length rest
    let ((), rest) ← expect length .arrow "'=>'" rest
    pure (row, rest)

/-! ### Connectives and comparisons -/

/-- One operand stands for itself. -/
def collapse (op : Connective) : List Expr → Expr
  | [e] => e
  | operands => .logical op operands

/-- Reads further operands, each after a separator. There are no more of them than tokens, which is
what `fuel` starts from. -/
def operandsAfter (separator : Token) (operand : Reader Expr) : Nat → Reader (List Expr)
  | 0, rest => .ok ([], rest)
  | fuel + 1, rest =>
    match rest with
    | next :: after =>
      if next.token = separator then do
        let (e, rest) ← operand after
        let (more, rest) ← operandsAfter separator operand fuel rest
        pure (e :: more, rest)
      else .ok ([], rest)
    | [] => .ok ([], [])

/-- Reads operands between separators and joins them. -/
def joined (op : Connective) (separator : Token) (operand : Reader Expr) : Reader Expr :=
  fun rest => do
    let (first, rest) ← operand rest
    let (more, rest) ← operandsAfter separator operand rest.length rest
    pure (collapse op (first :: more), rest)

/-- Reads an operand, and a second one if a comparison follows. -/
def comparison (unary : Reader Expr) : Reader Expr := fun rest => do
  let (left, rest) ← unary rest
  match rest with
  | ⟨_, .comparison op⟩ :: after =>
    let (right, rest) ← unary after
    pure (.compare op left right, rest)
  | _ => pure (left, rest)

/-- Reads an expression whose operands a reader is given for. -/
def disjunction (unary : Reader Expr) : Reader Expr :=
  joined .or .or (joined .and .and (comparison unary))

/-! ### Operands -/

/-- Reads what a word stands for. Literals and clocks come before the row, the row before
parameters. -/
def named (s : Scope) (name : String) (rest : List Placed) :
    Except CompileError (Expr × List Placed) :=
  if name = "null" then .ok (.literal .null, rest)
  else if name = "true" then .ok (.literal (.bool true), rest)
  else if name = "false" then .ok (.literal (.bool false), rest)
  else if name = "DateTime" ∨ name = "DateTimeOffset" then do
    let ((), rest) ← expect s.length .dot "'.'" rest
    let (clock, rest) ← word s.length rest
    if clock = "Now" then pure (.now .localTime, rest)
    else if clock = "UtcNow" then pure (.now .utc, rest)
    else fault s.length rest (.unsupportedClock clock)
  else if name = s.row then do
    let ((), rest) ← expect s.length .dot "'.' after row parameter" rest
    let (property, rest) ← word s.length rest
    pure (.field property, rest)
  else if s.params.contains name then .ok (.param name, rest)
  else .error (.unknownParameter name)

/-- The value of an integer token. -/
def integerLiteral (n : Nat) : Literal :=
  .integer (Int64.ofNat n)

/-- Reads an operand. `inner` reads what parentheses hold. -/
def operand (s : Scope) (inner : Reader Expr) : Reader Expr
  | ⟨_, .openParen⟩ :: rest => do
    let (e, rest) ← inner rest
    let ((), rest) ← expect s.length .closeParen "')'" rest
    pure (e, rest)
  | ⟨_, .integer n⟩ :: rest => .ok (.literal (integerLiteral n), rest)
  | ⟨_, .number x⟩ :: rest => .ok (.literal (.number x), rest)
  | ⟨_, .word name⟩ :: rest => named s name rest
  | rest => fault s.length rest (.expected "an operand")

/-- The property that a member name stands for. -/
def property? (name : String) : Option Method :=
  if name = "HasValue" then some .hasValue
  else if name = "Value" then some .value
  else none

/-- The method that a member name stands for. -/
def method? (name : String) : Option Method :=
  if name = "Contains" then some .contains
  else if name = "StartsWith" then some .startsWith
  else if name = "EndsWith" then some .endsWith
  else if name = "Equals" then some (.equals false)
  else if name = "ToUpper" ∨ name = "ToUpperInvariant" then some .toUpper
  else if name = "ToLower" ∨ name = "ToLowerInvariant" then some .toLower
  else none

/-- Reads the name of a text comparison: whether it ignores case. -/
def comparer (s : Scope) : Reader Bool := fun rest => do
  let (owner, rest) ← word s.length rest
  if owner = "StringComparison" ∨ owner = "StringComparer" then
    let ((), rest) ← expect s.length .dot "'.'" rest
    let (kind, rest) ← word s.length rest
    pure ("IgnoreCase".toList.isSuffixOf kind.toList, rest)
  else fault s.length rest (.notAComparer owner)

/-- Reads the arguments of a method and the closing parenthesis: the method, which a comparer may
change, and the argument, if there is one. -/
def arguments (s : Scope) (inner : Reader Expr) (method : Method) :
    Reader (Method × List Expr) := fun rest => do
  let ((method, found), rest) ← match rest with
    | ⟨_, .closeParen⟩ :: _ => Except.ok ((method, []), rest)
    | _ => do
      let (argument, rest) ← inner rest
      match method, rest with
      | .equals _, ⟨_, .comma⟩ :: after =>
        let (ignoreCase, rest) ← comparer s after
        pure ((.equals ignoreCase, [argument]), rest)
      | _, _ => pure ((method, [argument]), rest)
  let ((), rest) ← expect s.length .closeParen "')'" rest
  pure ((method, found), rest)

/-- Reads the members that follow an operand. Each begins with a dot, so there are no more of them
than tokens, which is what `fuel` starts from. -/
def membersAfter (s : Scope) (inner : Reader Expr) : Nat → Expr → Reader Expr
  | 0, e, rest => .ok (e, rest)
  | fuel + 1, e, rest =>
    match rest with
    | ⟨_, .dot⟩ :: after => do
      let (name, rest) ← word s.length after
      match rest with
      | ⟨_, .openParen⟩ :: inside =>
        match method? name with
        | none => fault s.length inside (.unsupportedMethod name)
        | some method =>
          let ((method, found), rest) ← arguments s inner method inside
          membersAfter s inner fuel (.call method e found) rest
      | _ =>
        match property? name with
        | none => fault s.length rest (.unsupportedMember name)
        | some method => membersAfter s inner fuel (.call method e []) rest
    | _ => .ok (e, rest)

/-- Reads an operand and its members. -/
def member (s : Scope) (inner : Reader Expr) : Reader Expr := fun rest => do
  let (e, rest) ← operand s inner rest
  membersAfter s inner rest.length e rest

/-- Reads the number after a minus sign. -/
def negative (s : Scope) : Reader Expr
  | ⟨_, .integer n⟩ :: rest => .ok (.literal (.integer (-Int64.ofNat n)), rest)
  | ⟨_, .number x⟩ :: rest => .ok (.literal (.number x.negate), rest)
  | _ :: rest => fault s.length rest .strayMinus
  | [] => fault s.length [] .strayMinus

/-! ### Levels -/

/-- Reads one level deeper, if a level is left. -/
def deeper {α : Type} (s : Scope) (reader : Option (Reader α)) : Reader α := fun rest =>
  match reader with
  | some read => read rest
  | none => fault s.length rest (.tooDeep maxLevels)

/-- Reads an operand with its members and signs. The first argument is the number of levels that
can still be opened. -/
def unary (s : Scope) : Nat → Reader Expr
  | 0, rest =>
    match rest with
    | ⟨_, .bang⟩ :: after => deeper s none after
    | ⟨_, .minus⟩ :: after => negative s after
    | _ => member s (deeper s none) rest
  | levels + 1, rest =>
    match rest with
    | ⟨_, .bang⟩ :: after => do
      let (e, rest) ← unary s levels after
      pure (.not e, rest)
    | ⟨_, .minus⟩ :: after => negative s after
    | _ => member s (disjunction (unary s levels)) rest

/-- Reads an expression. The first argument is the number of levels that can still be opened, the
expression's own among them. -/
def expression (s : Scope) : Nat → Reader Expr
  | 0 => deeper s none
  | levels + 1 => disjunction (unary s levels)

/-! ### Filters from text -/

/-- Whether a character could open or close quoted text. -/
def isQuotation (c : Char) : Bool :=
  c == '\'' || c == '"' || c == '\x60'

/-- Reads the text of a filter as an expression over declared parameters. -/
def parse (params : List String) (text : String) : Except CompileError Expr := do
  let cs := text.toList
  if cs.any isQuotation then
    throw (.unsafeText (.quotation (Token.byteLength (cs.takeWhile fun c => !isQuotation c))))
  let tokens ← Token.scan cs
  let length := Token.byteLength cs
  let (row, rest) ← head length tokens
  if params.contains row then throw (.invalidExpression (.rowNamedLike row))
  let (e, rest) ← expression ⟨row, params, length⟩ maxLevels rest
  if rest.isEmpty then pure e else fault length rest .trailingInput

end Lambda

/-- The filter of a text with parameters. -/
def Filter.parse (text : String) (params : List FilterParam) : Except CompileError Filter := do
  checkParams params
  let expr ← Lambda.parse (params.map FilterParam.name) text
  Filter.ofExpr expr params

end TypedSql
