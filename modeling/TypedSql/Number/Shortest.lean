/-
The shortest decimal that reads back as a binary number. For one digit, two digits and so on, the
two neighbours of the number on that decimal grid are tried; the first grid with a neighbour inside
the interval of reals that round to the number wins, and of two neighbours the nearer one, upwards
on a tie.
-/
import TypedSql.Number.Reader

namespace TypedSql.Number

/-- The decimal `digits * 10 ^ exponent`. -/
structure Decimal where
  digits : Nat
  exponent : Int
  deriving DecidableEq, Repr

/-- A positive number between the bounds of the interval that rounds to it. All three are over one
denominator. -/
structure Interval where
  low : Nat
  value : Nat
  high : Nat
  denominator : Nat
  /-- Whether the bounds themselves round to the number. -/
  closed : Bool
  deriving DecidableEq, Repr

/-- The interval of a number. The bounds lie half a unit away, a quarter below a power of two,
where the units get smaller; they belong to the interval of an even significand. -/
def BinaryFormat.interval (f : BinaryFormat) (significand : Nat) (exponent : Int) : Interval :=
  let quarter := exponent - 2
  let below := if significand = Nat.pow 2 (f.precision - 1) ∧ f.minExponent < exponent then 1 else 2
  { low := timesPower (4 * significand - below) quarter
    value := timesPower (4 * significand) quarter
    high := timesPower (4 * significand + 2) quarter
    denominator := timesPower 1 (-quarter)
    closed := significand % 2 == 0 }

namespace Interval

/-- Whether `digits * 10 ^ exponent` lies in the interval. -/
def contains (i : Interval) (digits : Nat) (exponent : Int) : Bool :=
  let point := digits * Nat.pow 10 exponent.toNat * i.denominator
  let low := i.low * Nat.pow 10 (-exponent).toNat
  let high := i.high * Nat.pow 10 (-exponent).toNat
  if i.closed then low ≤ point && point ≤ high else low < point && point < high

/-- The number of digits in front of the decimal point; at most zero for a number below one tenth. -/
def magnitude (i : Interval) : Int :=
  let k : Int := (digitCount i.value : Int) - digitCount i.denominator
  if i.denominator * Nat.pow 10 k.toNat ≤ i.value * Nat.pow 10 (-k).toNat then k + 1 else k

/-- The neighbour on the grid of `10 ^ exponent` that reads back: the nearer one of two. -/
def neighbour? (i : Interval) (exponent : Int) : Option Nat :=
  let num := i.value * Nat.pow 10 (-exponent).toNat
  let den := i.denominator * Nat.pow 10 exponent.toNat
  let low := num / den
  match i.contains low exponent, i.contains (low + 1) exponent with
  | true, true => some (if 2 * (num % den) < den then low else low + 1)
  | true, false => some low
  | false, true => some (low + 1)
  | false, false => none

/-- Tries the grids of `count` digits and more, `tries` of them. -/
def search (i : Interval) (magnitude : Int) (count : Nat) : Nat → Decimal
  | 0 => ⟨0, 0⟩
  | tries + 1 =>
    match i.neighbour? (magnitude - count) with
    | some digits => ⟨digits, magnitude - count⟩
    | none => search i magnitude (count + 1) tries

end Interval

/-- The decimal without trailing zeros; at most `fuel` are taken off. -/
def Decimal.stripFrom (d : Decimal) : Nat → Decimal
  | 0 => d
  | fuel + 1 =>
    if d.digits % 10 = 0 then Decimal.stripFrom ⟨d.digits / 10, d.exponent + 1⟩ fuel else d

/-- The shortest decimal of a positive number. A decimal of as many digits as the significand has
bits always reads back. -/
def BinaryFormat.shortest (f : BinaryFormat) (significand : Nat) (exponent : Int) : Decimal :=
  let i := f.interval significand exponent
  let found := i.search i.magnitude 1 f.precision
  found.stripFrom (digitCount found.digits - 1)

end TypedSql.Number
