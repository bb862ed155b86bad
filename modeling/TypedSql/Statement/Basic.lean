/-
Statements: a text with named placeholders, and the typed parameters that stand for them.
-/
import TypedSql.Compile.Error
import TypedSql.Sql.Lexeme
import TypedSql.Statement.Placeholder
import TypedSql.Types.Declaration

namespace TypedSql

/-- The direction of a parameter of a routine. -/
inductive Direction where
  | input
  | output
  | both
  deriving DecidableEq, Repr

/-- The word of a direction in a statement. -/
def Direction.keyword : Direction → String
  | input => "IN"
  | output => "OUT"
  | both => "INOUT"

/-- A parameter of a statement. -/
structure Parameter where
  name : String
  /-- Declaration name of its type, without a length. -/
  typeName : String
  length : Option UInt32
  direction : Direction
  deriving DecidableEq, Repr

namespace Parameter

/-- An input of a server type. An `enum` or `set` is declared as `varchar`, since a parameter has
no list of members. -/
def ofNative (name : String) (native : NativeType) (length : Option UInt32) :
    Except CompileError Parameter := do
  let declared := if native = .enum ∨ native = .set then .varChar else native
  let typeName ← liftType (Registry.standard.nameOf declared)
  pure ⟨name, typeName, length, .input⟩

/-- An input of the server type that stands for a host type. -/
def ofHost (name : String) (host : HostType) (length : Option UInt32) :
    Except CompileError Parameter := do
  ofNative name (← liftType (Registry.standard.nativeOf host)) length

/-- The declaration of the parameter's type, with its length. -/
def declaration (p : Parameter) : Except CompileError String := do
  let d ← liftType (Declaration.read Registry.standard p.typeName false)
  liftType (Declaration.write Registry.standard d.native p.length)

end Parameter

/-- A statement and its parameters. -/
structure Statement where
  text : String
  parameters : List Parameter
  deriving DecidableEq, Repr

namespace Statement

/-- The statement that lexemes spell. -/
def ofLexemes (lexemes : List Lexeme) (parameters : List Parameter) : Statement :=
  ⟨Lexeme.text lexemes, parameters⟩

/-- The first parameter of a name. -/
def parameter? (s : Statement) (name : String) : Option Parameter :=
  s.parameters.find? fun p => p.name == name

/-- The names of the placeholders in the text, in order, repeats included. -/
def placeholders (s : Statement) : List String :=
  TypedSql.placeholders s.text

end Statement

end TypedSql
