/-
Addresses that stand for hosts in URLs: numbers of 32 bits, written as up to four numbers between
dots, and numbers of 128 bits, written as eight pieces between colons. Two colons stand for as many
pieces of zero as are missing, and four decimal numbers may stand for the last two pieces.

Main statement: `length_of_address6?` (an address of 128 bits has eight pieces).
-/
import TypedSql.Text.Split
import TypedSql.Url.Escape

namespace TypedSql.Url

/-- The number that digits write in a base of at most sixteen; zero if there are none. -/
def digitsIn? (base : Nat) (cs : List Char) : Option Nat :=
  cs.foldl (fun n c => do
    let n ← n
    let d ← hexValue? c
    if d < base then some (base * n + d) else none) (some 0)

/-! ### Addresses of 32 bits -/

/-- A part of an address: hexadecimal after `0x`, octal after another leading zero, and decimal
otherwise. -/
def part4? : List Char → Option Nat
  | [] => none
  | '0' :: x :: rest =>
    if x = 'x' ∨ x = 'X' then digitsIn? 16 rest else digitsIn? 8 (x :: rest)
  | cs => digitsIn? 10 cs

/-- The labels without an empty one at the end, unless it is the only one. -/
def dropLastDot (labels : List (List Char)) : List (List Char) :=
  match labels.reverse with
  | [] :: last :: rest => (last :: rest).reverse
  | _ => labels

/-- Whether labels can only be meant as an address: the last one is a number. -/
def endsInNumber (labels : List (List Char)) : Bool :=
  (dropLastDot labels).getLast?.any fun last =>
    (!last.isEmpty && last.all Char.isDigit) || (part4? last).isSome

/-- The address of parts, the last of which fills up what the others leave. The first argument is
the number of addresses that are left. -/
def address4From? (room : Nat) : List Nat → Option Nat
  | [] => none
  | [last] => if last < room then some last else none
  | part :: rest => do
    let low ← address4From? (room / 256) rest
    if part < 256 then some (part * (room / 256) + low) else none

/-- Reads an address of 32 bits. -/
def address4? (labels : List (List Char)) : Option Nat := do
  let labels := dropLastDot labels
  if 4 < labels.length then none
  else address4From? 0x100000000 (← labels.mapM part4?)

/-! ### Addresses of 128 bits -/

/-- A piece: one to four hexadecimal digits. -/
def piece? (cs : List Char) : Option Nat :=
  if cs.isEmpty || 4 < cs.length then none else digitsIn? 16 cs

/-- A number below 256 without leading zeros. -/
def byte? : List Char → Option Nat
  | [] => none
  | '0' :: _ :: _ => none
  | cs => (digitsIn? 10 cs).filter (· < 256)

/-- Two pieces written as four numbers between dots. -/
def dotted? (cs : List Char) : Option (List Nat) :=
  match (Text.splitAt '.' cs).mapM byte? with
  | some [a, b, c, d] => some [256 * a + b, 256 * c + d]
  | _ => none

/-- Reads pieces, the last of which may be two in dots. -/
def pieces? : List (List Char) → Option (List Nat)
  | [] => some []
  | [last] => (piece? last).map ([·]) <|> dotted? last
  | cs :: rest => do
    let piece ← piece? cs
    pure (piece :: (← pieces? rest))

/-- What stands before and after the first two colons in a row. -/
def cutDoubleColon : List Char → Option (List Char × List Char)
  | ':' :: ':' :: rest => some ([], rest)
  | c :: rest => (cutDoubleColon rest).map fun (before, after) => (c :: before, after)
  | [] => none

/-- The texts between colons; none in an empty text. -/
def betweenColons (cs : List Char) : List (List Char) :=
  if cs.isEmpty then [] else Text.splitAt ':' cs

/-- Fills up with pieces of zero, at least one. -/
def filled? (before after : List Nat) : Option (List Nat) :=
  if before.length + after.length < 8 then
    some (before ++ List.replicate (8 - (before.length + after.length)) 0 ++ after)
  else none

/-- Reads an address of 128 bits as its pieces. -/
def address6? (cs : List Char) : Option (List Nat) :=
  match cutDoubleColon cs with
  | none => (pieces? (betweenColons cs)).filter (·.length == 8)
  | some (before, after) => do
    filled? (← (betweenColons before).mapM piece?) (← pieces? (betweenColons after))

theorem length_of_address6? {cs : List Char} {pieces : List Nat}
    (h : address6? cs = some pieces) : pieces.length = 8 := by
  rw [address6?] at h
  split at h
  · obtain ⟨_, hlength⟩ := Option.filter_eq_some_iff.1 h
    simpa using hlength
  · simp only [Option.bind_eq_bind, Option.bind_eq_some_iff] at h
    obtain ⟨before, _, after, _, h⟩ := h
    rw [filled?] at h
    split at h
    · simp only [Option.some.injEq] at h
      subst h
      simp only [List.length_append, List.length_replicate]
      omega
    · simp at h

end TypedSql.Url
