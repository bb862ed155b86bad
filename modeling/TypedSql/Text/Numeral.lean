/-
Decimal numerals of whole numbers: an optional `+`, then digits, with a value below a bound.
-/

namespace TypedSql.Text

/-- The value of a digit character, counted from `0`. -/
def digitValue (c : Char) : Nat :=
  c.toNat - '0'.toNat

/-- The number that a list of decimal digits writes, most significant first. -/
def digitsValue (cs : List Char) : Nat :=
  cs.foldl (fun n c => 10 * n + digitValue c) 0

/-- The numeral without a leading `+`. -/
def dropPlus : List Char → List Char
  | '+' :: rest => rest
  | cs => cs

/-- Reads a numeral below `bound`. Nothing but one `+` and at least one ASCII digit is allowed;
leading zeros are. -/
def readNumeral? (bound : Nat) (cs : List Char) : Option Nat :=
  let digits := dropPlus cs
  if digits.isEmpty || !digits.all Char.isDigit then none
  else if digitsValue digits < bound then some (digitsValue digits) else none

theorem readNumeral?_lt {bound n : Nat} {cs : List Char} (h : readNumeral? bound cs = some n) :
    n < bound := by
  simp only [readNumeral?] at h
  split at h
  · simp at h
  · split at h
    · rename_i hlt
      simpa [← Option.some.inj h] using hlt
    · simp at h

end TypedSql.Text
