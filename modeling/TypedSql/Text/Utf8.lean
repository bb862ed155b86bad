/-
UTF-8: bytes read as text. The bytes of a text are taken one at a time; the first byte of a
character says how many follow and within which bounds the next one lies. Bytes that cannot go on
as a character are one invalid part, and reading starts anew at the first byte that did not fit.

Main statement: `decode?_eq_some_iff` (a text is read strictly if and only if no part of it is
invalid).
-/

namespace TypedSql.Text.Utf8

/-- A character that is not complete. -/
structure Pending where
  /-- Bytes that are still owed; at least one. -/
  owed : Nat
  /-- The least next byte. -/
  low : Nat
  /-- The greatest next byte. -/
  high : Nat
  /-- The bits read so far. -/
  bits : Nat
  deriving DecidableEq, Repr

/-- What the first byte of a character says: the character itself or what is to follow. -/
inductive Start where
  | character (c : Char)
  | pending (p : Pending)
  | invalid
  deriving DecidableEq, Repr

/-- Reads the first byte of a character. -/
def start (b : Nat) : Start :=
  if b < 0x80 then .character (Char.ofNat b)
  else if b < 0xC2 then .invalid
  else if b < 0xE0 then .pending ⟨1, 0x80, 0xBF, b - 0xC0⟩
  else if b = 0xE0 then .pending ⟨2, 0xA0, 0xBF, 0⟩
  else if b = 0xED then .pending ⟨2, 0x80, 0x9F, 0xD⟩
  else if b < 0xF0 then .pending ⟨2, 0x80, 0xBF, b - 0xE0⟩
  else if b = 0xF0 then .pending ⟨3, 0x90, 0xBF, 0⟩
  else if b < 0xF4 then .pending ⟨3, 0x80, 0xBF, b - 0xF0⟩
  else if b = 0xF4 then .pending ⟨3, 0x80, 0x8F, 4⟩
  else .invalid

/-- The characters of bytes, `none` for each invalid part. The first argument is the character that
has been begun. -/
def partsFrom : Option Pending → List UInt8 → List (Option Char)
  | none, [] => []
  | some _, [] => [none]
  | none, b :: rest =>
    match start b.toNat with
    | .character c => some c :: partsFrom none rest
    | .pending p => partsFrom (some p) rest
    | .invalid => none :: partsFrom none rest
  | some p, b :: rest =>
    let n := b.toNat
    if p.low ≤ n ∧ n ≤ p.high then
      let bits := 64 * p.bits + (n - 0x80)
      if p.owed ≤ 1 then some (Char.ofNat bits) :: partsFrom none rest
      else partsFrom (some ⟨p.owed - 1, 0x80, 0xBF, bits⟩) rest
    else
      -- the byte does not belong to the character and may begin another one
      none :: match start n with
        | .character c => some c :: partsFrom none rest
        | .pending q => partsFrom (some q) rest
        | .invalid => none :: partsFrom none rest

/-- The characters of bytes, `none` for each invalid part. -/
def parts (bytes : List UInt8) : List (Option Char) :=
  partsFrom none bytes

/-- The text of bytes, with a replacement character for each invalid part. -/
def decodeLossy (bytes : List UInt8) : String :=
  String.ofList ((parts bytes).map fun part => part.getD '\uFFFD')

/-- The text of bytes without invalid parts. -/
def decode? (bytes : List UInt8) : Option String :=
  let found := parts bytes
  if found.all Option.isSome then some (String.ofList (found.filterMap id)) else none

theorem decode?_eq_some_iff {bytes : List UInt8} :
    (decode? bytes).isSome ↔ none ∉ parts bytes := by
  simp only [decode?]
  split
  · rename_i h
    simp only [List.all_eq_true] at h
    simp only [Option.isSome_some, true_iff]
    exact fun hn => by simpa using h none hn
  · rename_i h
    simp only [Option.isSome_none, Bool.false_eq_true, false_iff, Decidable.not_not]
    simp only [List.all_eq_true] at h
    false_or_by_contra
    rename_i hn
    exact h fun part hpart => by
      cases part with
      | none => exact absurd hpart hn
      | some c => rfl

end TypedSql.Text.Utf8
