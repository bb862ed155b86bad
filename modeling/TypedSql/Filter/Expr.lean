/-
Filter expressions: what a filter says about a row. The functions in the second half build
expressions the way an application writes them.
-/
import TypedSql.Number.Binary

namespace TypedSql

/-- A value written in an expression. Text is never written; it is bound to a parameter. -/
inductive Literal where
  | null
  | bool (value : Bool)
  | integer (value : Int64)
  | number (value : Number.BinaryNumber)
  | text (value : String)
  deriving DecidableEq, Repr

/-- Comparisons of two values. -/
inductive Comparison where
  | eq
  | ne
  | lt
  | le
  | gt
  | ge
  deriving DecidableEq, Repr

namespace Comparison

/-- The comparison that holds when the operands change places. -/
def converse : Comparison → Comparison
  | lt => gt
  | le => ge
  | gt => lt
  | ge => le
  | c => c

@[simp] theorem converse_converse (c : Comparison) : c.converse.converse = c := by
  cases c <;> rfl

end Comparison

/-- The connectives that join any number of operands. -/
inductive Connective where
  | and
  | or
  deriving DecidableEq, Repr

/-- The server's clocks. -/
inductive Clock where
  | localTime
  | utc
  deriving DecidableEq, Repr

/-- What can be asked of a value. -/
inductive Method where
  | contains
  | startsWith
  | endsWith
  | equals (ignoreCase : Bool)
  | toUpper
  | toLower
  /-- Whether the value is there. -/
  | hasValue
  /-- The value itself. -/
  | value
  deriving DecidableEq, Repr

namespace Method

/-- The number of arguments. -/
def arity : Method → Nat
  | contains | startsWith | endsWith | equals _ => 1
  | toUpper | toLower | hasValue | value => 0

end Method

/-- An expression over a row. -/
inductive Expr where
  /-- A property of the row. -/
  | field (property : String)
  /-- A bound parameter. -/
  | param (name : String)
  | literal (value : Literal)
  | now (clock : Clock)
  | compare (op : Comparison) (left right : Expr)
  | logical (op : Connective) (operands : List Expr)
  | not (operand : Expr)
  | call (method : Method) (receiver : Expr) (arguments : List Expr)
  deriving Repr

namespace Expr

/-- Whether the expression is the null literal. -/
def isNull : Expr → Bool
  | literal .null => true
  | _ => false

/-! ### Building expressions -/

/-- Joins two expressions. A left operand that is already joined the same way takes the right one
in. -/
def join (op : Connective) (left right : Expr) : Expr :=
  match left with
  | logical op' operands => if op' = op then logical op (operands ++ [right]) else
      logical op [left, right]
  | _ => logical op [left, right]

/-- Calls a method with one argument. -/
def call1 (method : Method) (receiver argument : Expr) : Expr :=
  call method receiver [argument]

/-- Calls a method without arguments. -/
def call0 (method : Method) (receiver : Expr) : Expr :=
  call method receiver []

/-- Tests for NULL. -/
def testNull (e : Expr) : Expr :=
  compare .eq e (literal .null)

/-- Tests for a value. -/
def testNotNull (e : Expr) : Expr :=
  compare .ne e (literal .null)

/-- Negates an expression `n` times. -/
def negate (e : Expr) : Nat → Expr
  | 0 => e
  | n + 1 => not (negate e n)

end Expr

end TypedSql
