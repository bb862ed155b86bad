/-
What can go wrong when types are read or related, and how it is reported.
-/
import TypedSql.Types.HostType

namespace TypedSql

/-- Failures of reading and relating types. -/
inductive TypeError where
  /-- The text is not a type declaration. -/
  | unparsable (declaration : String)
  /-- No server type stands for the host type. -/
  | unmapped (host : HostType)
  /-- The code belongs to no type that can be declared. -/
  | invalidTypeId (code : UInt8)
  deriving DecidableEq, Repr

namespace TypeError

/-- Two hexadecimal digits. -/
def hexByte (n : UInt8) : String :=
  String.ofList [Nat.digitChar (n.toNat / 16), Nat.digitChar (n.toNat % 16)]

/-- The report of a failure. -/
def message : TypeError → String
  | unparsable declaration => "Unparsable type declaration: '" ++ declaration ++ "'"
  | unmapped host => "No native type mapped for host type " ++ host.text
  | invalidTypeId code => "Invalid native type id 0x" ++ hexByte code

end TypeError

end TypedSql
