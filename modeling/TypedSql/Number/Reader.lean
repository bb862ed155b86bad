/-
Decimal texts of binary numbers: an optional sign, digits with an optional fraction, and an
optional exponent, or one of the words `inf` and `nan`. The value is the number of the format that
is nearest to what the text says.
-/
import TypedSql.Number.Binary
import TypedSql.Text.Letter
import TypedSql.Text.Numeral

namespace TypedSql.Number

open Text

/-- How many decimal digits a natural number is written with. -/
def digitCount (n : Nat) : Nat :=
  (Nat.toDigits 10 n).length

/-- The number of a format that is nearest to `digits * 10 ^ exponent`. -/
def BinaryFormat.ofDecimal (f : BinaryFormat) (negative : Bool) (digits : Nat) (exponent : Int) :
    BinaryNumber :=
  let magnitude : Int := digitCount digits + exponent
  if digits = 0 then f.nearest negative 0 1
  -- beyond the greatest number, since a power of ten is no less than that power of two
  else if f.maxExponent + f.precision < magnitude then .infinite negative
  -- under half the least number
  else if magnitude < f.minExponent - 1 then f.nearest negative 0 1
  else f.nearest negative (digits * Nat.pow 10 exponent.toNat) (Nat.pow 10 (-exponent).toNat)

/-- A sign in front of a text, and the text after it. -/
def readSign : List Char → Bool × List Char
  | '-' :: rest => (true, rest)
  | '+' :: rest => (false, rest)
  | cs => (false, cs)

/-- Reads an exponent: `e` or `E`, an optional sign, and digits. No text is exponent zero. -/
def readExponent? : List Char → Option Int
  | [] => some 0
  | c :: rest =>
    let (negative, digits) := readSign rest
    if (c = 'e' ∨ c = 'E') ∧ digits ≠ [] ∧ digits.all Char.isDigit then
      some (if negative then -(digitsValue digits : Int) else digitsValue digits)
    else none

/-- Reads digits with an optional fraction and exponent. -/
def BinaryFormat.readUnsigned? (f : BinaryFormat) (negative : Bool) (cs : List Char) :
    Option BinaryNumber :=
  let whole := cs.takeWhile Char.isDigit
  let rest := cs.dropWhile Char.isDigit
  let (fraction, rest) := match rest with
    | '.' :: after => (after.takeWhile Char.isDigit, after.dropWhile Char.isDigit)
    | _ => ([], rest)
  if whole.isEmpty && fraction.isEmpty then none
  else (readExponent? rest).map fun exponent =>
    f.ofDecimal negative (digitsValue (whole ++ fraction)) (exponent - fraction.length)

/-- Reads a decimal text, in any letter case. -/
def BinaryFormat.read? (f : BinaryFormat) (cs : List Char) : Option BinaryNumber :=
  let (negative, rest) := readSign cs
  let word := lower rest
  if word = "inf".toList ∨ word = "infinity".toList then some (.infinite negative)
  else if word = "nan".toList then some .nan
  else f.readUnsigned? negative rest

end TypedSql.Number
