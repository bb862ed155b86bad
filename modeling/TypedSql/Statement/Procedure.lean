/-
Stored procedures: a statement as the body of a routine. Each parameter of the statement becomes a
parameter of the routine, under a prefix that is to keep it apart from the columns in the body, and
each placeholder becomes the routine parameter's name.
-/
import TypedSql.Statement.Basic

namespace TypedSql

open Lexeme (word mark space words qualified)

/-- The name of the routine parameter of a statement's parameter. -/
def routineParameterName (name : String) : String :=
  "p_" ++ name

/-- A parameter of a routine. -/
structure RoutineParameter where
  direction : Direction
  name : String
  declaration : String
  deriving DecidableEq, Repr

namespace RoutineParameter

/-- The routine parameter of a statement's parameter. -/
def ofParameter (p : Parameter) : Except CompileError RoutineParameter := do
  pure ⟨p.direction, routineParameterName p.name, ← p.declaration⟩

/-- The lexemes of a routine parameter. -/
def lexemes (p : RoutineParameter) : List Lexeme :=
  [word p.direction.keyword, space, .name p.name, space, word p.declaration]

end RoutineParameter

/-- A stored procedure with the lines of its body. -/
structure Procedure where
  database : String
  name : String
  parameters : List RoutineParameter
  body : List (List Char)
  deriving DecidableEq, Repr

namespace Procedure

/-- The lines of a text. A line ends at a line feed, with or without a carriage return in front of
it; an end behind the last line starts no further line. -/
def lines : List Char → List (List Char)
  | [] => []
  | '\r' :: '\n' :: rest => [] :: lines rest
  | c :: rest =>
    if c = '\n' then [] :: lines rest
    else match lines rest with
      | [] => [[c]]
      | line :: more => (c :: line) :: more

/-- The name of a placeholder's routine parameter, in backticks. -/
def parameterReference (placeholder : String) : List Char :=
  (Lexeme.name (routineParameterName placeholder)).spell.toList

/-- The procedure of a statement. Every placeholder must be a parameter. -/
def ofStatement (database name : String) (s : Statement) : Except CompileError Procedure := do
  checkName .database database
  checkName .procedure name
  let parameters ← s.parameters.mapM RoutineParameter.ofParameter
  match s.placeholders.find? fun p => (s.parameter? p).isNone with
  | some unbound => throw (.unknownParameter unbound)
  | none =>
    pure ⟨database, name, parameters,
      lines (substitute parameterReference s.text).toList⟩

/-- The delimiter for clients that would end a statement at the first semicolon. -/
def alternateDelimiter : String := "$$"

/-- The lexemes from the first word to the parameter list. -/
def headLexemes (p : Procedure) : List Lexeme :=
  words ["CREATE", "PROCEDURE"] ++ [space] ++ qualified p.database p.name ++ [mark "("] ++
    (if p.parameters.isEmpty then [mark ")"]
    else [.blank "\n\t"] ++ Lexeme.commaLines (p.parameters.map RoutineParameter.lexemes) ++
      [.blank "\n", mark ")"])

/-- The body, each line indented by a tab. -/
def bodyText (p : Procedure) : String :=
  String.ofList (List.intercalate ['\n'] (p.body.map ('\t' :: ·)))

/-- The procedure without anything behind its last word. -/
def core (p : Procedure) : String :=
  Lexeme.text p.headLexemes ++ "\nBEGIN\n" ++ p.bodyText ++ "\nEND"

/-- The text of the procedure: one statement, or a script that sets another delimiter around it. -/
def text (p : Procedure) (alternate : Bool) : String :=
  if alternate then
    "DELIMITER " ++ alternateDelimiter ++ "\n" ++ p.core ++ alternateDelimiter ++ "\nDELIMITER ;"
  else p.core ++ ";"

/-- The statement that creates the procedure of another statement, with that statement's
parameters. -/
def create (database name : String) (s : Statement) (alternate : Bool) :
    Except CompileError Statement := do
  let p ← ofStatement database name s
  pure ⟨p.text alternate, s.parameters⟩

/-- Drops a procedure, if there is one. -/
def drop (database name : String) : Except CompileError Statement := do
  checkName .database database
  checkName .procedure name
  pure (Statement.ofLexemes
    (words ["DROP", "PROCEDURE", "IF", "EXISTS"] ++ [space] ++ qualified database name ++
      [mark ";"]) [])

end Procedure

end TypedSql
