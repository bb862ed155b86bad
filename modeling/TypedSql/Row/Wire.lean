/-
Values on the wire: the bytes of moments and spans, and the sizes of values in the packets that carry
them. A moment or span is cut short where all that would follow is zero.

Main statement: `ofLittleEndian_littleEndian` (what the bytes of a number say).
-/
import TypedSql.Row.Value

namespace TypedSql

/-- The bytes of a number, the least one first. -/
def littleEndian : Nat → Nat → List UInt8
  | 0, _ => []
  | width + 1, n => UInt8.ofNat n :: littleEndian width (n / 256)

/-- The number that bytes say, the least one first. -/
def ofLittleEndian : List UInt8 → Nat
  | [] => 0
  | b :: rest => b.toNat + 256 * ofLittleEndian rest

/-- The bytes of a moment. -/
def Moment.wire (m : Moment) : List UInt8 :=
  let date := littleEndian 2 m.year ++ littleEndian 1 m.month ++ littleEndian 1 m.day
  let clock := littleEndian 1 m.hour ++ littleEndian 1 m.minute ++ littleEndian 1 m.second
  if m = ⟨0, 0, 0, 0, 0, 0, 0⟩ then []
  else if m.hour = 0 ∧ m.minute = 0 ∧ m.second = 0 ∧ m.micro = 0 then date
  else if m.micro = 0 then date ++ clock
  else date ++ clock ++ littleEndian 4 m.micro

/-- The bytes of a span. The sign of a span of no length is lost. -/
def Span.wire (s : Span) : List UInt8 :=
  let whole := [if s.negative then 1 else 0] ++ littleEndian 4 s.days ++
    littleEndian 1 s.hours ++ littleEndian 1 s.minutes ++ littleEndian 1 s.seconds
  if { s with negative := false } = ⟨false, 0, 0, 0, 0, 0⟩ then []
  else if s.micros = 0 then whole
  else whole ++ littleEndian 4 s.micros

/-- The number of bytes that bytes take, their count in front of them. -/
def countedSize (n : Nat) : Nat :=
  n + if n < 251 then 1 else if n < 0x10000 then 3 else if n < 0x1000000 then 4 else 9

/-- What sizes come to together. -/
def totalSize : List Nat → Nat
  | [] => 0
  | size :: rest => size + totalSize rest

namespace Value

/-- The number of bytes that a parameter takes. NULL is told apart elsewhere. -/
def parameterSize : Value → Nat
  | null => 0
  | bytes content => countedSize content.length
  | int _ | uint _ | double _ => 8
  | float _ => 4
  | moment value => countedSize value.wire.length
  | span value => countedSize value.wire.length

/-- A value as it arrives where only its bytes are looked at: moments and spans are theirs. -/
def arrived : Value → Value
  | moment value => bytes value.wire
  | span value => bytes value.wire
  | value => value

end Value

/-! ### Laws -/

@[simp] theorem length_littleEndian (width n : Nat) : (littleEndian width n).length = width := by
  induction width generalizing n with
  | zero => rfl
  | succ width ih => simp [littleEndian, ih]

/-- As many bytes as a number needs say that number. -/
theorem ofLittleEndian_littleEndian {width n : Nat} (h : n < Nat.pow 256 width) :
    ofLittleEndian (littleEndian width n) = n := by
  induction width generalizing n with
  | zero =>
    have : n = 0 := by simpa using h
    simp [littleEndian, ofLittleEndian, this]
  | succ width ih =>
    have hrest : n / 256 < Nat.pow 256 width :=
      Nat.div_lt_of_lt_mul (by rwa [Nat.mul_comm])
    rw [littleEndian, ofLittleEndian, ih hrest, UInt8.toNat_ofNat']
    omega

end TypedSql
