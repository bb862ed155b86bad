/-
Failures of the catalog, and how they are reported.
-/
import TypedSql.Compile.Error
import TypedSql.Connection.Error

namespace TypedSql

/-- What is wrong with what the server told of itself. -/
inductive IntrospectionFault where
  /-- A row lacks a value. -/
  | missingValue (column : String)
  | notANumber (column value : String)
  /-- An object that was just created is not listed. -/
  | missingAfterCreate (kind : NameKind) (name : String)
  deriving DecidableEq, Repr

/-- The report of a fault. -/
def IntrospectionFault.message : IntrospectionFault → String
  | missingValue column => "missing '" ++ column ++ "' value"
  | notANumber column value => "'" ++ column ++ "' is not a number: '" ++ value ++ "'"
  | missingAfterCreate kind name => kind.text ++ " '" ++ name ++ "' missing after create"

/-- Failures of the catalog. -/
inductive CatalogError where
  | invalidName (kind : NameKind) (name : String)
  | alreadyExists (kind : NameKind) (name : String)
  /-- The server told something that cannot be read. -/
  | introspection (fault : IntrospectionFault)
  | type (error : TypeError)
  | compile (error : CompileError)
  | connection (error : ConnectionError)
  deriving DecidableEq, Repr

namespace CatalogError

/-- The report of a failure. -/
def message : CatalogError → String
  | invalidName kind name => "Invalid " ++ kind.text ++ " name: '" ++ name ++ "'"
  | alreadyExists kind name => kind.text ++ " '" ++ name ++ "' already exists"
  | introspection fault => "Malformed introspection result: " ++ fault.message
  | type error => error.message
  | compile error => error.message
  | connection error => error.message

/-- Whether talking to the server failed, so that a second try may go better. -/
def isTransport : CatalogError → Bool
  | connection _ => true
  | _ => false

end CatalogError

end TypedSql
