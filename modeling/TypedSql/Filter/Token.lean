/-
The tokens of a filter's text. Each token is kept with the byte at which it starts. Between tokens
there is white space; the longest spelling counts.
-/
import TypedSql.Compile.Error
import TypedSql.Number.Reader
import TypedSql.Text.Blank

namespace TypedSql

open Number (BinaryNumber binary64)

/-- A token of a filter's text. -/
inductive Token where
  | word (name : String)
  | integer (value : Nat)
  | number (value : BinaryNumber)
  | arrow
  | dot
  | comma
  | openParen
  | closeParen
  | and
  | or
  | bang
  | minus
  | comparison (op : Comparison)
  deriving DecidableEq, Repr

/-- A token and the byte at which it starts. -/
structure Placed where
  position : Nat
  token : Token
  deriving DecidableEq, Repr

namespace Token

/-- The spellings that are not words or numbers. Longer spellings come first. -/
def symbols : List (List Char × Token) :=
  [(['=', '>'], arrow), (['&', '&'], and), (['|', '|'], or), (['=', '='], comparison .eq),
   (['!', '='], comparison .ne), (['<', '='], comparison .le), (['>', '='], comparison .ge),
   (['<'], comparison .lt), (['>'], comparison .gt), (['!'], bang), (['-'], minus), (['.'], dot),
   ([','], comma), (['('], openParen), ([')'], closeParen)]

/-- The symbol that a text starts with. -/
def symbol? (cs : List Char) : Option (List Char × Token) :=
  symbols.find? fun s => s.1.isPrefixOf cs

/-- The token of a word. Two words are spellings of operators. -/
def ofWord (name : String) : Token :=
  if name = "AndAlso" then and else if name = "OrElse" then or else word name

/-- Whether a word may start with a character. -/
def startsWord (c : Char) : Bool :=
  c.isAlpha || c == '_' || c == '$'

/-- The bytes of a text. -/
def byteLength : List Char → Nat
  | [] => 0
  | c :: rest => c.utf8Size + byteLength rest

theorem byteLength_append (cs ds : List Char) :
    byteLength (cs ++ ds) = byteLength cs + byteLength ds := by
  induction cs with
  | nil => simp [byteLength]
  | cons c cs ih => rw [List.cons_append, byteLength, byteLength, ih, Nat.add_assoc]

/-- The fraction after a whole number: a point, if a digit follows it, and digits. -/
def fraction : List Char → List Char
  | '.' :: rest =>
    let digits := rest.takeWhile Char.isDigit
    if digits.isEmpty then [] else '.' :: digits
  | _ => []

/-- The greatest integer of a literal, plus one. -/
def integerBound : Nat := 0x8000000000000000

/-- Reads the number at the start of a text, at a position. An integer that is out of range is
reported behind its digits. -/
def number? (position : Nat) (cs : List Char) : Except CompileError (List Char × Token) :=
  let whole := cs.takeWhile Char.isDigit
  let part := fraction (cs.dropWhile Char.isDigit)
  if part.isEmpty then
    let value := Text.digitsValue whole
    if value < integerBound then .ok (whole, integer value)
    else .error (.parse (position + byteLength whole) (.integerOutOfRange (String.ofList whole)))
  else
    let digits := Text.digitsValue (whole ++ part.tail)
    .ok (whole ++ part, number (binary64.ofDecimal false digits (1 - part.length)))

/-- Reads the token at the start of a text that does not start with white space: its spelling and
itself. -/
def read? (position : Nat) (cs : List Char) : Except CompileError (List Char × Token) :=
  match symbol? cs with
  | some found => .ok found
  | none =>
    match cs with
    | [] => .error (.parse position .trailingInput)
    | c :: _ =>
      if c.isDigit then number? position cs
      else if startsWord c then
        let name := cs.takeWhile Text.isIdentifierChar
        .ok (name, ofWord (String.ofList name))
      else .error (.parse position (.unexpectedCharacter c))

/-- Reads tokens until the text ends. A text has at most as many tokens as characters, which is
what `fuel` starts from. -/
def scanFrom (position : Nat) (cs : List Char) : Nat → Except CompileError (List Placed)
  | 0 => .ok []
  | fuel + 1 =>
    let start := position + byteLength (cs.takeWhile Text.isBlank)
    match Text.trimStart cs with
    | [] => .ok []
    | c :: rest => do
      let (spelling, token) ← read? start (c :: rest)
      let more ← scanFrom (start + byteLength spelling) ((c :: rest).drop spelling.length) fuel
      pure (⟨start, token⟩ :: more)

/-- The tokens of a text. -/
def scan (cs : List Char) : Except CompileError (List Placed) :=
  scanFrom 0 cs cs.length

end Token

end TypedSql
