/-
Labels of domain names that write letters of all scripts in ASCII. A label is a run of plain
characters and, behind its last hyphen, numbers that say which characters to put in where. A number
is written in base 36, least digit first, with a threshold at each digit below which it ends; the
thresholds follow a bias that is adapted after each number.

Main statement: `length_of_number?` (reading a number takes at least one digit).
-/
import TypedSql.Url.Escape

namespace TypedSql.Url.Punycode

/-- The value of a digit: `a` to `z`, then `0` to `9`. -/
def digitValue? (c : Char) : Option Nat :=
  let c := c.toLower
  if 'a' ≤ c ∧ c ≤ 'z' then some (c.toNat - 'a'.toNat)
  else if c.isDigit then some (c.toNat - '0'.toNat + 26)
  else none

/-- The threshold at a digit, which stands at `place`, a multiple of 36. -/
def threshold (place bias : Nat) : Nat :=
  min 26 (max 1 (place - bias))

/-- Reads a number: its value and what follows. -/
def number? (bias : Nat) : Nat → Nat → List Char → Option (Nat × List Char)
  | _, _, [] => none
  | place, weight, c :: rest => do
    let digit ← digitValue? c
    let least := threshold place bias
    if digit < least then some (digit * weight, rest)
    else
      let (more, rest) ← number? bias (place + 36) (weight * (36 - least)) rest
      pure (digit * weight + more, rest)

theorem length_of_number? {bias place weight : Nat} {cs rest : List Char} {n : Nat}
    (h : number? bias place weight cs = some (n, rest)) : rest.length < cs.length := by
  induction cs generalizing place weight n rest with
  | nil => simp [number?] at h
  | cons c cs ih =>
    simp only [number?, Option.bind_eq_bind, Option.bind_eq_some_iff] at h
    obtain ⟨digit, _, h⟩ := h
    split at h
    · simp only [Option.some.injEq, Prod.mk.injEq] at h
      simp [h.2]
    · simp only [Option.bind_eq_some_iff] at h
      obtain ⟨⟨more, after⟩, hmore, h⟩ := h
      simp only [Option.pure_def, Option.some.injEq, Prod.mk.injEq] at h
      have hlength := ih hmore
      simp only [List.length_cons, ← h.2]
      omega

/-- Brings a number near the middle of the digits, counting the steps. -/
def steps (delta : Nat) : Nat × Nat :=
  if 455 < delta then
    let (count, rest) := steps (delta / 35)
    (count + 1, rest)
  else (0, delta)
termination_by delta

/-- The bias after a number. -/
def adapt (delta size : Nat) (isFirst : Bool) : Nat :=
  let delta := if isFirst then delta / 700 else delta / 2
  let (count, rest) := steps (delta + delta / size)
  36 * count + 36 * rest / (rest + 38)

/-- Puts characters in. `code` is the least code point that can come next and `place` the least
place for it. -/
def insertions? (bias code place : Nat) (text cs : List Char) : Option (List Char) :=
  match h : number? bias 36 1 cs with
  | none => if cs.isEmpty then some text else none
  | some (delta, rest) =>
    let size := text.length + 1
    let next := code + (place + delta) / size
    let spot := (place + delta) % size
    if next.isValidChar then
      insertions? (adapt delta size (place == 0)) next (spot + 1)
        (text.insertIdx spot (Char.ofNat next)) rest
    else none
termination_by cs.length
decreasing_by exact length_of_number? h

/-- Reads a label. -/
def decode? (label : List Char) : Option (List Char) :=
  match label.reverse.span (· != '-') with
  | (numbers, _ :: plain) => insertions? 72 0x80 0 plain.reverse numbers.reverse
  | (numbers, []) => insertions? 72 0x80 0 [] numbers.reverse

end TypedSql.Url.Punycode
