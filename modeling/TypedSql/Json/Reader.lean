/-
Reading JSON documents, and the fields of a record in a document.

A string is read as characters and code units, which are then paired: a unit of a surrogate pair
that stands alone leaves the string without a value. The readers recurse on a bound on what is left
of the text.
-/
import TypedSql.Json.Basic
import TypedSql.Text.Numeral

namespace TypedSql.Json

/-! ### Strings -/

/-- A character of a string, or a code unit that an escape gives. -/
inductive Piece where
  | char (c : Char)
  | unit (code : Nat)
  deriving DecidableEq, Repr

/-- The value of a hexadecimal digit. -/
def hexValue? (c : Char) : Option Nat :=
  if c.isDigit then some (c.toNat - '0'.toNat)
  else if 'a' ≤ c ∧ c ≤ 'f' then some (c.toNat - 'a'.toNat + 10)
  else if 'A' ≤ c ∧ c ≤ 'F' then some (c.toNat - 'A'.toNat + 10)
  else none

/-- The number that four hexadecimal digits write. -/
def hexValue4? (a b c d : Char) : Option Nat := do
  pure (4096 * (← hexValue? a) + 256 * (← hexValue? b) + 16 * (← hexValue? c) + (← hexValue? d))

/-- The character of an escape with one letter. -/
def escaped? (c : Char) : Option Char :=
  if c = '"' ∨ c = '\\' ∨ c = '/' then some c
  else if c = 'b' then some '\x08'
  else if c = 'f' then some '\x0c'
  else if c = 'n' then some '\n'
  else if c = 'r' then some '\r'
  else if c = 't' then some '\t'
  else none

/-- Reads the inside of a string and its closing quotation mark. -/
def pieces? : List Char → Option (List Piece × List Char)
  | [] => none
  | '"' :: rest => some ([], rest)
  | '\\' :: 'u' :: a :: b :: c :: d :: rest => do
    let code ← hexValue4? a b c d
    let (more, rest) ← pieces? rest
    pure (.unit code :: more, rest)
  | '\\' :: e :: rest => do
    let c ← escaped? e
    let (more, rest) ← pieces? rest
    pure (.char c :: more, rest)
  | c :: rest =>
    if c = '\\' ∨ c.toNat < 0x20 then none
    else do
      let (more, rest) ← pieces? rest
      pure (.char c :: more, rest)

/-- Whether a code unit begins a surrogate pair. -/
def isHigh (code : Nat) : Bool :=
  0xD800 ≤ code && code < 0xDC00

/-- Whether a code unit ends a surrogate pair. -/
def isLow (code : Nat) : Bool :=
  0xDC00 ≤ code && code < 0xE000

/-- The character of a surrogate pair. -/
def pairChar (high low : Nat) : Char :=
  Char.ofNat (0x10000 + 0x400 * (high - 0xD800) + (low - 0xDC00))

/-- The text of pieces, unless half of a surrogate pair stands alone. -/
def pieceText? : List Piece → Option (List Char)
  | [] => some []
  | .char c :: rest => (pieceText? rest).map (c :: ·)
  | .unit high :: .unit low :: rest =>
    if isHigh high then
      if isLow low then (pieceText? rest).map (pairChar high low :: ·) else none
    else if isLow high then none
    else (pieceText? (.unit low :: rest)).map (Char.ofNat high :: ·)
  | .unit code :: rest =>
    if isHigh code || isLow code then none else (pieceText? rest).map (Char.ofNat code :: ·)

/-- Reads a string behind its opening quotation mark. -/
def string? (cs : List Char) : Option (Option String × List Char) := do
  let (found, rest) ← pieces? cs
  pure ((pieceText? found).map String.ofList, rest)

/-! ### Numbers -/

/-- Reads digits, at least one. -/
def digits? (cs : List Char) : Option (List Char × List Char) :=
  let digits := cs.takeWhile Char.isDigit
  if digits.isEmpty then none else some (digits, cs.dropWhile Char.isDigit)

/-- Reads the digits of a whole number: a single zero, or digits that do not begin with one. -/
def whole? : List Char → Option (List Char × List Char)
  | '0' :: c :: rest => if c.isDigit then none else some (['0'], c :: rest)
  | cs => digits? cs

/-- Reads a fraction, if there is one: whether there is. -/
def fraction? : List Char → Option (Bool × List Char)
  | '.' :: rest => (digits? rest).map fun found => (true, found.2)
  | cs => some (false, cs)

/-- Reads an exponent, if there is one: whether there is. -/
def exponent? : List Char → Option (Bool × List Char)
  | [] => some (false, [])
  | c :: rest =>
    if c = 'e' ∨ c = 'E' then
      let unsigned := match rest with
        | '+' :: after => after
        | '-' :: after => after
        | _ => rest
      (digits? unsigned).map fun found => (true, found.2)
    else some (false, c :: rest)

/-- Reads a number. -/
def number? (cs : List Char) : Option (Json × List Char) := do
  let (negative, rest) := match cs with
    | '-' :: rest => (true, rest)
    | _ => (false, cs)
  let (digits, rest) ← whole? rest
  let (hasFraction, rest) ← fraction? rest
  let (hasExponent, rest) ← exponent? rest
  pure (.number ⟨negative, digits, !hasFraction && !hasExponent⟩, rest)

/-! ### Documents -/

/-- Whether a character may stand between the parts of a document. -/
def isSpace (c : Char) : Bool :=
  c == ' ' || c == '\t' || c == '\n' || c == '\r'

/-- The text without leading space. -/
def skip (cs : List Char) : List Char :=
  cs.dropWhile isSpace

mutual

/-- Reads a document. -/
def value? : Nat → List Char → Option (Json × List Char)
  | 0, _ => none
  | fuel + 1, cs =>
    match skip cs with
    | 'n' :: 'u' :: 'l' :: 'l' :: rest => some (.null, rest)
    | 't' :: 'r' :: 'u' :: 'e' :: rest => some (.bool true, rest)
    | 'f' :: 'a' :: 'l' :: 's' :: 'e' :: rest => some (.bool false, rest)
    | '"' :: rest => (string? rest).map fun found => (.string found.1, found.2)
    | '[' :: rest =>
      match skip rest with
      | ']' :: rest => some (.array [], rest)
      | rest => (items? fuel rest).map fun found => (.array found.1, found.2)
    | '\x7b' :: rest =>
      match skip rest with
      | '\x7d' :: rest => some (.object [], rest)
      | rest => (entries? fuel rest).map fun found => (.object found.1, found.2)
    | rest => number? rest

/-- Reads the items of an array, at least one, and the closing bracket. -/
def items? : Nat → List Char → Option (List Json × List Char)
  | 0, _ => none
  | fuel + 1, cs => do
    let (item, rest) ← value? fuel cs
    match skip rest with
    | ',' :: rest =>
      let (more, rest) ← items? fuel rest
      pure (item :: more, rest)
    | ']' :: rest => pure ([item], rest)
    | _ => none

/-- Reads the entries of an object, at least one, and the closing brace. -/
def entries? : Nat → List Char → Option (List (Option String × Json) × List Char)
  | 0, _ => none
  | fuel + 1, cs => do
    match skip cs with
    | '"' :: rest =>
      let (key, rest) ← string? rest
      match skip rest with
      | ':' :: rest =>
        let (value, rest) ← value? fuel rest
        match skip rest with
        | ',' :: rest =>
          let (more, rest) ← entries? fuel rest
          pure ((key, value) :: more, rest)
        | '\x7d' :: rest => pure ([(key, value)], rest)
        | _ => none
      | _ => none
    | _ => none

end

/-- Reads a text that holds one document. -/
def read? (text : String) : Option Json := do
  let cs := text.toList
  let (document, rest) ← value? (cs.length + 1) cs
  if (skip rest).isEmpty then pure document else none

/-! ### Records -/

/-- What a document holds for each field of a record, in the order of `known`. An object gives each
field at most once; its other entries are refused if the record is closed. An array gives the fields
in order and no more. -/
def fields? (known : List String) (isClosed : Bool) : Json → Option (List (Option Json))
  | .object entries =>
    let keys := entries.filterMap Prod.fst
    if keys.length ≠ entries.length then none
    else if isClosed && !keys.all known.contains then none
    else if known.all fun key => keys.count key ≤ 1 then
      some (known.map fun key => entries.lookup (some key))
    else none
  | .array items =>
    if items.length ≤ known.length then
      some (items.map some ++ List.replicate (known.length - items.length) none)
    else none
  | _ => none

/-- A text. -/
def toText? : Json → Option String
  | .string value => value
  | _ => none

/-- A natural number below a bound, written without sign, fraction and exponent. -/
def toNat? (bound : Nat) : Json → Option Nat
  | .number n =>
    let value := Text.digitsValue n.digits
    if n.whole && !n.negative && value < bound then some value else none
  | _ => none

end TypedSql.Json
