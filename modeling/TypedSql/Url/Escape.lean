/-
Escapes in URLs: `%` and two hexadecimal digits stand for a byte.

Main statement: `unescapedBytes_cons` (a character that begins no escape stands for its own bytes).
-/
import TypedSql.Text.Utf8

namespace TypedSql.Url

/-- The value of a hexadecimal digit. -/
def hexValue? (c : Char) : Option Nat :=
  if c.isDigit then some (c.toNat - '0'.toNat)
  else if 'a' ≤ c.toLower && c.toLower ≤ 'f' then some (c.toLower.toNat - 'a'.toNat + 10)
  else none

/-- The bytes of a text in which `%` and two hexadecimal digits stand for a byte. -/
def unescapedBytes : List Char → List UInt8
  | [] => []
  | c :: rest =>
    match c, rest with
    | '%', h :: l :: rest =>
      match hexValue? h, hexValue? l with
      | some h, some l => UInt8.ofNat (16 * h + l) :: unescapedBytes rest
      | _, _ => '%'.toString.toUTF8.toList ++ unescapedBytes (h :: l :: rest)
    | c, rest => c.toString.toUTF8.toList ++ unescapedBytes rest

/-- The text that escapes stand for. -/
def unescape (cs : List Char) : String :=
  Text.Utf8.decodeLossy (unescapedBytes cs)

/-- The text of a piece of a query, where `+` is a blank. -/
def unescapeQuery (cs : List Char) : String :=
  unescape (cs.map fun c => if c = '+' then ' ' else c)

/-- A hexadecimal digit in upper case. -/
def hexDigit (n : Nat) : Char :=
  (Nat.digitChar (n % 16)).toUpper

/-- A byte as an escape. -/
def escapeByte (b : UInt8) : List Char :=
  ['%', hexDigit (b.toNat / 16), hexDigit b.toNat]

theorem unescapedBytes_cons {c : Char} (h : c ≠ '%') (rest : List Char) :
    unescapedBytes (c :: rest) = c.toString.toUTF8.toList ++ unescapedBytes rest := by
  rw [unescapedBytes]
  exact fun _ _ _ hc _ => h hc

end TypedSql.Url
