/-
Binary floating-point numbers as integers: a significand times a power of two, in a format that
bounds both. A quotient of natural numbers is brought into a format by rounding to the nearest
number, ties to the even significand, and to infinity beyond the greatest one.

Main statements: `roundEven_within` (rounding moves by half a unit at most) and `roundEven_of_tie`
(a tie goes to an even number).
-/

namespace TypedSql.Number

/-- A binary format: bits of the significand, and the least and greatest exponent of its unit. -/
structure BinaryFormat where
  precision : Nat
  minExponent : Int
  maxExponent : Int
  deriving DecidableEq, Repr

/-- The 64-bit format. -/
def binary64 : BinaryFormat := ⟨53, -1074, 971⟩

/-- The 32-bit format. -/
def binary32 : BinaryFormat := ⟨24, -149, 104⟩

/-- A number of a binary format. A finite one is `significand * 2 ^ exponent`, with all bits of the
significand in use unless the exponent is the least. -/
inductive BinaryNumber where
  | nan
  | infinite (negative : Bool)
  | finite (negative : Bool) (significand : Nat) (exponent : Int)
  deriving DecidableEq, Repr

namespace BinaryNumber

/-- Whether the number is neither infinite nor undefined. -/
def isFinite : BinaryNumber → Bool
  | finite .. => true
  | _ => false

/-- The number with the other sign. -/
def negate : BinaryNumber → BinaryNumber
  | nan => nan
  | infinite negative => infinite !negative
  | finite negative significand exponent => finite (!negative) significand exponent

end BinaryNumber

/-- The whole number nearest to `num / den`, the even one of two. -/
def roundEven (num den : Nat) : Nat :=
  let low := num / den
  let double := 2 * (num % den)
  if double < den then low
  else if den < double then low + 1
  else if low % 2 = 0 then low else low + 1

/-- `num * 2 ^ k`, or `num` where `k` is negative. -/
def timesPower (num : Nat) (k : Int) : Nat :=
  num * Nat.pow 2 k.toNat

/-- The exponent of the greatest power of two that is at most `num / den`. -/
def binaryMagnitude (num den : Nat) : Int :=
  let k : Int := (num.log2 : Int) - (den.log2 : Int)
  if timesPower den k ≤ timesPower num (-k) then k else k - 1

/-- The number of a format that is nearest to `num / den`. -/
def BinaryFormat.nearest (f : BinaryFormat) (negative : Bool) (num den : Nat) : BinaryNumber :=
  if num = 0 then .finite negative 0 f.minExponent
  else
    let exponent := max (binaryMagnitude num den - (f.precision - 1)) f.minExponent
    let significand := roundEven (timesPower num (-exponent)) (timesPower den exponent)
    -- rounding up may need one more bit
    let carried := significand = Nat.pow 2 f.precision
    let exponent := if carried then exponent + 1 else exponent
    let significand := if carried then Nat.pow 2 (f.precision - 1) else significand
    if f.maxExponent < exponent then .infinite negative
    else .finite negative significand exponent

/-! ### Laws of rounding -/

theorem roundEven_within {num den : Nat} (hden : 0 < den) :
    2 * num ≤ 2 * (roundEven num den * den) + den ∧
      2 * (roundEven num den * den) ≤ 2 * num + den := by
  have hdiv : den * (num / den) + num % den = num := Nat.div_add_mod num den
  have hcomm : num / den * den = den * (num / den) := Nat.mul_comm _ _
  have hsucc : (num / den + 1) * den = den * (num / den) + den := by
    rw [Nat.add_mul, hcomm, Nat.one_mul]
  have hmod : num % den < den := Nat.mod_lt _ hden
  simp only [roundEven]
  split
  · omega
  · split
    · omega
    · split <;> omega

theorem roundEven_of_tie {num den : Nat} (h : 2 * (num % den) = den) :
    roundEven num den % 2 = 0 := by
  simp only [roundEven, h, Nat.lt_irrefl, if_false]
  split <;> omega

end TypedSql.Number
