/-
The shape of numerals in statements.

A numeral is made of digits, a point with digits behind it, and an exponent. Only the first digits
must be there, and an exponent has some too.

* `signed_toString` — a whole number is written as a numeral of digits, with or without a sign;
* `signed_write` — so is a finite binary number;
* `exists_mark_write` — in a literal, it has a point or an exponent, so it is no whole number.
-/
import Mathlib
import TypedSql.Number.Style

namespace TypedSql.Number

/-- A point with digits behind it, or nothing. -/
inductive Fraction : List Char → Prop
  | none : Fraction []
  | point {digits : List Char} (each : ∀ c ∈ digits, c.isDigit = true) : Fraction ('.' :: digits)

/-- An exponent, or nothing. -/
inductive Exponent : List Char → Prop
  | none : Exponent []
  | plain {digits : List Char} (some : digits ≠ []) (each : ∀ c ∈ digits, c.isDigit = true) :
      Exponent ('e' :: digits)
  | negative {digits : List Char} (some : digits ≠ []) (each : ∀ c ∈ digits, c.isDigit = true) :
      Exponent ('e' :: '-' :: digits)

/-- A numeral without a sign. -/
inductive Numeral : List Char → Prop
  | intro {whole fraction exponent : List Char} (some : whole ≠ [])
      (each : ∀ c ∈ whole, c.isDigit = true) (behind : Fraction fraction)
      (scaled : Exponent exponent) : Numeral (whole ++ fraction ++ exponent)

/-- A numeral with or without a sign. -/
inductive Signed : List Char → Prop
  | plain {cs : List Char} (unsigned : Numeral cs) : Signed cs
  | negative {cs : List Char} (unsigned : Numeral cs) : Signed ('-' :: cs)

theorem isDigit_toDigits {n : Nat} : ∀ c ∈ Nat.toDigits 10 n, c.isDigit = true :=
  fun _ hc => Nat.isDigit_of_mem_toDigits (by decide) (by decide) hc

theorem isDigit_replicate_zero {n : Nat} : ∀ c ∈ List.replicate n '0', c.isDigit = true := by
  intro c hc
  obtain rfl := (List.mem_replicate.mp hc).2
  decide

theorem numeral_of_digits {cs : List Char} (some : cs ≠ []) (each : ∀ c ∈ cs, c.isDigit = true) :
    Numeral cs := by
  have h := Numeral.intro some each .none .none
  simpa using h

/-! ### Whole numbers -/

theorem toList_toString_of_nonneg {i : Int} (h : 0 ≤ i) :
    (toString i).toList = Nat.toDigits 10 i.natAbs := by
  rw [Int.toString_eq_repr, Int.repr_eq_if, if_pos h, Nat.toList_repr,
    show i.toNat = i.natAbs by omega]

theorem toList_toString_of_neg {i : Int} (h : i < 0) :
    (toString i).toList = '-' :: Nat.toDigits 10 i.natAbs := by
  rw [Int.toString_eq_repr, Int.repr_eq_if, if_neg (by omega), String.toList_append,
    Nat.toList_repr, show (-i).toNat = i.natAbs by omega]
  rfl

theorem numeral_toDigits (n : Nat) : Numeral (Nat.toDigits 10 n) :=
  numeral_of_digits Nat.toDigits_ne_nil isDigit_toDigits

theorem signed_toString (i : Int) : Signed (toString i).toList := by
  by_cases h : 0 ≤ i
  · rw [toList_toString_of_nonneg h]
    exact .plain (numeral_toDigits _)
  · rw [toList_toString_of_neg (by omega)]
    exact .negative (numeral_toDigits _)

/-! ### Binary numbers -/

section Binary

variable {digits : List Char}

theorem numeral_positional {style : Style} (some : digits ≠ [])
    (each : ∀ c ∈ digits, c.isDigit = true) (whole : Int) :
    Numeral (style.positional digits whole) := by
  rw [Style.positional]
  split_ifs with hsmall hlong hpoint
  · have hdigits : ∀ c ∈ List.replicate (-whole).toNat '0' ++ digits, c.isDigit = true := by
      intro c hc
      rcases List.mem_append.mp hc with hc | hc
      · exact isDigit_replicate_zero c hc
      · exact each c hc
    have hnumeral : Numeral (['0'] ++ '.' :: (List.replicate (-whole).toNat '0' ++ digits) ++ []) :=
      .intro (by simp) (by simp) (.point hdigits) .none
    simpa using hnumeral
  all_goals
    have hpadded : ∀ c ∈ digits ++ List.replicate (whole - digits.length).toNat '0',
        c.isDigit = true := by
      intro c hc
      rcases List.mem_append.mp hc with hc | hc
      · exact each c hc
      · exact isDigit_replicate_zero c hc
  · have hfraction : Fraction ['.', '0'] := .point (by simp)
    simpa using Numeral.intro (by simp [some]) hpadded hfraction .none
  · simpa using numeral_of_digits (by simp [some]) hpadded
  · have hwhole : digits.take whole.toNat ≠ [] := by
      have := List.length_pos_of_ne_nil some
      intro hnil
      rcases List.take_eq_nil_iff.mp hnil with h | h
      · omega
      · exact some h
    simpa using Numeral.intro hwhole (fun c hc => each c (List.mem_of_mem_take hc))
      (.point fun c hc => each c (List.mem_of_mem_drop hc)) .none

theorem exponent_toString (i : Int) : Exponent ('e' :: (toString i).toList) := by
  by_cases h : 0 ≤ i
  · rw [toList_toString_of_nonneg h]
    exact .plain Nat.toDigits_ne_nil isDigit_toDigits
  · rw [toList_toString_of_neg (by omega)]
    exact .negative Nat.toDigits_ne_nil isDigit_toDigits

theorem numeral_scientific (some : digits ≠ []) (each : ∀ c ∈ digits, c.isDigit = true)
    (exponent : Int) : Numeral (Style.scientific digits exponent) := by
  have hfirst : digits.take 1 ≠ [] := by simp [some]
  have hfraction : Fraction (if digits.length ≤ 1 then [] else '.' :: digits.drop 1) := by
    split_ifs
    · exact .none
    · exact .point fun c hc => each c (List.mem_of_mem_drop hc)
  exact .intro hfirst (fun c hc => each c (List.mem_of_mem_take hc)) hfraction
    (exponent_toString exponent)

theorem numeral_decimal (style : Style) (d : Decimal) : Numeral (style.decimal d) := by
  rw [Style.decimal]
  split_ifs
  · exact numeral_positional Nat.toDigits_ne_nil isDigit_toDigits _
  · exact numeral_scientific Nat.toDigits_ne_nil isDigit_toDigits _

theorem numeral_zero (style : Style) : Numeral style.zero := by
  rw [Style.zero]
  split_ifs
  · have hzero : Numeral (['0'] ++ ['.', '0'] ++ []) :=
      .intro (by simp) (by simp) (.point (by simp)) .none
    exact hzero
  · exact numeral_of_digits (by simp) (by simp)

end Binary

theorem signed_write (style : Style) (f : BinaryFormat) {x : BinaryNumber}
    (h : x.isFinite = true) : Signed (style.write f x).toList := by
  cases x with
  | nan => exact absurd h (by simp [BinaryNumber.isFinite])
  | infinite negative => exact absurd h (by simp [BinaryNumber.isFinite])
  | finite negative significand exponent =>
    have hdigits : Numeral (if significand = 0 then style.zero
        else style.decimal (f.shortest significand exponent)) := by
      split_ifs
      · exact numeral_zero style
      · exact numeral_decimal style _
    rw [Style.write, String.toList_ofList]
    cases negative with
    | true => exact .negative hdigits
    | false => exact .plain hdigits

/-! ### Points and exponents -/

/-- A character that is neither a digit nor a sign. -/
def IsMark (c : Char) : Prop :=
  c.isDigit = false ∧ c ≠ '-'

theorem exists_mark_positional {style : Style} (hpointed : style.pointed = true)
    (digits : List Char) (whole : Int) : ∃ c ∈ style.positional digits whole, IsMark c := by
  refine ⟨'.', ?_, by decide, by decide⟩
  rw [Style.positional]
  split_ifs <;> simp

theorem exists_mark_scientific (digits : List Char) (exponent : Int) :
    ∃ c ∈ Style.scientific digits exponent, IsMark c :=
  ⟨'e', by simp [Style.scientific], by decide, by decide⟩

/-- No number is written as a whole number in a literal. -/
theorem exists_mark_write (f : BinaryFormat) (x : BinaryNumber) :
    ∃ c ∈ (Style.literal.write f x).toList, IsMark c := by
  cases x with
  | nan => exact ⟨'N', by simp [Style.write], by decide, by decide⟩
  | infinite negative => exact ⟨'i', by cases negative <;> simp [Style.write], by decide, by decide⟩
  | finite negative significand exponent =>
    obtain ⟨c, hc, hmark⟩ : ∃ c ∈ (if significand = 0 then Style.literal.zero
        else Style.literal.decimal (f.shortest significand exponent)), IsMark c := by
      split_ifs
      · exact ⟨'.', by decide, by decide, by decide⟩
      · rw [Style.decimal]
        split_ifs
        · exact exists_mark_positional rfl _ _
        · exact exists_mark_scientific _ _
    refine ⟨c, ?_, hmark⟩
    rw [Style.write, String.toList_ofList]
    cases negative with
    | true => exact List.mem_cons_of_mem _ hc
    | false => exact hc

end TypedSql.Number
