/-
How binary numbers are written: by their shortest decimal, in positional notation within a range of
magnitudes and with an exponent outside it.
-/
import TypedSql.Number.Shortest

namespace TypedSql.Number

/-- A way to write numbers. A number has magnitude `k` when `10 ^ (k - 1)` is the greatest power of
ten that it reaches. -/
structure Style where
  /-- The least magnitude in positional notation; all, where there is none. -/
  least : Option Int
  /-- The greatest magnitude in positional notation. -/
  greatest : Option Int
  /-- Whether a whole number in positional notation ends in `.0`. -/
  pointed : Bool
  deriving DecidableEq, Repr

namespace Style

/-- Literals: positional from one ten-thousandth to below `10 ^ 16`, always with a point or an
exponent. -/
def literal : Style := ⟨some (-3), some 16, true⟩

/-- Column texts: always positional, without a point where the number is whole. -/
def plain : Style := ⟨none, none, false⟩

/-- Whether a magnitude is written in positional notation. -/
def isPositional (s : Style) (magnitude : Int) : Bool :=
  s.least.all (· ≤ magnitude) && s.greatest.all (magnitude ≤ ·)

/-- Digits in positional notation, with `whole` of them in front of the point. -/
def positional (s : Style) (digits : List Char) (whole : Int) : List Char :=
  if whole ≤ 0 then
    '0' :: '.' :: (List.replicate (-whole).toNat '0' ++ digits)
  else if (digits.length : Int) ≤ whole then
    digits ++ List.replicate (whole - digits.length).toNat '0' ++
      (if s.pointed then ['.', '0'] else [])
  else digits.take whole.toNat ++ '.' :: digits.drop whole.toNat

/-- Digits with an exponent: one digit in front of the point, and no point without a fraction. -/
def scientific (digits : List Char) (exponent : Int) : List Char :=
  digits.take 1 ++ (if digits.length ≤ 1 then [] else '.' :: digits.drop 1) ++
    'e' :: (toString exponent).toList

/-- A positive decimal. -/
def decimal (s : Style) (d : Decimal) : List Char :=
  let digits := Nat.toDigits 10 d.digits
  let magnitude : Int := digits.length + d.exponent
  if s.isPositional magnitude then s.positional digits magnitude
  else scientific digits (magnitude - 1)

/-- Zero. -/
def zero (s : Style) : List Char :=
  if s.pointed then ['0', '.', '0'] else ['0']

/-- Writes a number of a format. -/
def write (s : Style) (f : BinaryFormat) : BinaryNumber → String
  | .nan => "NaN"
  | .infinite negative => if negative then "-inf" else "inf"
  | .finite negative significand exponent =>
    let digits :=
      if significand = 0 then s.zero else s.decimal (f.shortest significand exponent)
    String.ofList (if negative then '-' :: digits else digits)

end Style

end TypedSql.Number
