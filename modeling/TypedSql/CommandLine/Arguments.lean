/-
The command line: which command its arguments name. The connection string is an option that stands
before the command; two hyphens end the options of a command, and a lone hyphen is an operand.

Main statement: `readOperands_append` (operands without hyphens are taken as they stand).
-/
import TypedSql.Text.Letter

namespace TypedSql.CommandLine

/-- What the program tells of a server. -/
inductive Inspection where
  | databases
  | tables (database : String)
  | columns (database table : String)
  | indexes (database table : String)
  deriving DecidableEq, Repr

/-- What the program is asked for. -/
inductive Command where
  | inspect (what : Inspection)
  /-- Reads a type declaration, which needs no server. -/
  | parseType (declaration : String) (nullable : Bool)
  deriving DecidableEq, Repr

/-- What the arguments say. -/
inductive Invocation where
  /-- Asks for the program's version. -/
  | version
  | run (connectionString : Option String) (command : Command)
  deriving DecidableEq, Repr

/-- Whether an argument is written as an option. -/
def isOption (arg : String) : Bool :=
  match arg.toList with
  | '-' :: _ :: _ => true
  | _ => false

/-- What follows a beginning of an argument. -/
def after? (beginning arg : String) : Option String :=
  if beginning.toList.isPrefixOf arg.toList then
    some (String.ofList (arg.toList.drop beginning.length))
  else none

/-- The operands of a command, and how often the flag was given, where the command has one. -/
def readOperands (flag : Option String) : List String → Option (List String × Nat)
  | [] => some ([], 0)
  | arg :: rest =>
    if arg = "--" then some (rest, 0)
    else if flag = some arg then (readOperands flag rest).map fun (texts, n) => (texts, n + 1)
    else if isOption arg then none
    else (readOperands flag rest).map fun (texts, n) => (arg :: texts, n)

/-- The command of a word and what follows it. -/
def readCommand (word : String) (rest : List String) : Option Command :=
  match word with
  | "databases" =>
    match readOperands none rest with
    | some ([], _) => some (.inspect .databases)
    | _ => none
  | "tables" =>
    match readOperands none rest with
    | some ([database], _) => some (.inspect (.tables database))
    | _ => none
  | "columns" =>
    match readOperands none rest with
    | some ([database, table], _) => some (.inspect (.columns database table))
    | _ => none
  | "indexes" =>
    match readOperands none rest with
    | some ([database, table], _) => some (.inspect (.indexes database table))
    | _ => none
  | "parse-type" =>
    match readOperands (some "--nullable") rest with
    | some ([declaration], 0) => some (.parseType declaration false)
    | some ([declaration], 1) => some (.parseType declaration true)
    | _ => none
  | _ => none

/-- Reads arguments after a connection string that was given already; none if they cannot be
understood. -/
def readArguments (given : Option String) : List String → Option Invocation
  | [] => none
  | "--connection-string" :: value :: rest =>
    if isOption value ∨ given.isSome then none else readArguments (some value) rest
  | arg :: rest =>
    match after? "--connection-string=" arg with
    | some value => if given.isSome then none else readArguments (some value) rest
    | none =>
      if arg = "--version" ∨ (after? "-V" arg).isSome then some .version
      else (readCommand arg rest).map (.run given)

theorem readOperands_append {flag : Option String} {texts : List String}
    (h : ∀ t ∈ texts, isOption t = false ∧ flag ≠ some t ∧ t ≠ "--") (rest : List String) :
    readOperands flag (texts ++ rest) =
      (readOperands flag rest).map fun (found, n) => (texts ++ found, n) := by
  induction texts with
  | nil => simp
  | cons t texts ih =>
    obtain ⟨ho, hf, hd⟩ := h t (by simp)
    simp only [List.cons_append, readOperands, hd, hf, ho, if_false, Bool.false_eq_true,
      ih fun u hu => h u (by simp [hu]), Option.map_map]
    rfl

end TypedSql.CommandLine
