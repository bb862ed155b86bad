/-
Values as they pass between the application and the server, and the texts that column values are
read as.
-/
import TypedSql.Number.Style
import TypedSql.Text.Utf8
import TypedSql.Types.HostType

namespace TypedSql

open Number (BinaryNumber Style binary32 binary64)

/-- A date with a time of day. -/
structure Moment where
  year : Nat
  month : Nat
  day : Nat
  hour : Nat
  minute : Nat
  second : Nat
  micro : Nat
  deriving DecidableEq, Repr

/-- A signed span of time. -/
structure Span where
  negative : Bool
  days : Nat
  hours : Nat
  minutes : Nat
  seconds : Nat
  micros : Nat
  deriving DecidableEq, Repr

instance : HostValue Moment := ⟨.plain .dateTime⟩
instance : HostValue Span := ⟨.plain .time⟩

/-- A value of a column or parameter. -/
inductive Value where
  | null
  | bytes (content : List UInt8)
  | int (value : Int64)
  | uint (value : UInt64)
  | float (value : BinaryNumber)
  | double (value : BinaryNumber)
  | moment (value : Moment)
  | span (value : Span)
  deriving DecidableEq, Repr

/-- A truth value is one or zero. -/
def Value.ofBool (b : Bool) : Value :=
  .int (if b then 1 else 0)

/-! ### Texts -/

/-- A number with leading zeros up to a width. -/
def padded (width n : Nat) : List Char :=
  let digits := Nat.toDigits 10 n
  List.replicate (width - digits.length) '0' ++ digits

/-- Hours, minutes and seconds, and microseconds unless there are none. -/
def clockText (hourWidth hours minutes seconds micros : Nat) : List Char :=
  padded hourWidth hours ++ ':' :: padded 2 minutes ++ ':' :: padded 2 seconds ++
    (if micros = 0 then [] else '.' :: padded 6 micros)

/-- A date; its time of day follows unless all of it is zero. -/
def Moment.text (m : Moment) : List Char :=
  padded 4 m.year ++ '-' :: padded 2 m.month ++ '-' :: padded 2 m.day ++
    (if m.hour = 0 ∧ m.minute = 0 ∧ m.second = 0 ∧ m.micro = 0 then []
    else ' ' :: clockText 2 m.hour m.minute m.second m.micro)

/-- A span in hours, at least three digits of them. -/
def Span.text (s : Span) : List Char :=
  (if s.negative then ['-'] else []) ++
    clockText 3 (24 * s.days + s.hours) s.minutes s.seconds s.micros

/-- The text that a column value is read as; NULL has none. -/
def Value.text? : Value → Option String
  | null => none
  | bytes content => some (Text.Utf8.decodeLossy content)
  | int value => some (toString value.toInt)
  | uint value => some (toString value.toNat)
  | float value => some (Style.plain.write binary32 value)
  | double value => some (Style.plain.write binary64 value)
  | moment value => some (String.ofList value.text)
  | span value => some (String.ofList value.text)

end TypedSql
