/-
JSON documents in their compact form: no white space, and in strings an escape only where one is
needed.
-/
import TypedSql.Json.Basic

namespace TypedSql

/-- A number as it is written. -/
def JsonNumber.print (n : JsonNumber) : List Char :=
  (if n.negative then ['-'] else []) ++ n.digits

namespace Json

/-- A hexadecimal digit in lower case. -/
def hexDigit (n : Nat) : Char :=
  Nat.digitChar (n % 16)

/-- A character of a string: quotation marks, backslashes and control characters are escaped. -/
def escape (c : Char) : List Char :=
  if c = '"' then ['\\', '"']
  else if c = '\\' then ['\\', '\\']
  else if c = '\x08' then ['\\', 'b']
  else if c = '\t' then ['\\', 't']
  else if c = '\n' then ['\\', 'n']
  else if c = '\x0c' then ['\\', 'f']
  else if c = '\r' then ['\\', 'r']
  else if c.toNat < 0x20 then
    ['\\', 'u', '0', '0', hexDigit (c.toNat / 16), hexDigit c.toNat]
  else [c]

/-- A string in quotation marks. -/
def quote (cs : List Char) : List Char :=
  '"' :: (cs.flatMap escape ++ ['"'])

/-- Parts with a comma between each two. -/
def commas (parts : List (List Char)) : List Char :=
  List.intercalate [','] parts

mutual

/-- The compact form of a document. -/
def print : Json → List Char
  | null => ['n', 'u', 'l', 'l']
  | bool true => ['t', 'r', 'u', 'e']
  | bool false => ['f', 'a', 'l', 's', 'e']
  | number n => n.print
  | string s => quote ((s.getD "").toList)
  | array items => '[' :: (commas (printItems items) ++ [']'])
  | object entries => '\x7b' :: (commas (printEntries entries) ++ ['\x7d'])

/-- The compact forms of an array's items. -/
def printItems : List Json → List (List Char)
  | [] => []
  | item :: rest => print item :: printItems rest

/-- The compact forms of an object's entries. -/
def printEntries : List (Option String × Json) → List (List Char)
  | [] => []
  | (key, value) :: rest =>
    (quote ((key.getD "").toList) ++ ':' :: print value) :: printEntries rest

end

/-- The text of a document. -/
def text (j : Json) : String :=
  String.ofList j.print

end Json

end TypedSql
