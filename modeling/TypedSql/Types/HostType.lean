/-
The application's value types: a kind, and whether NULL is among the values.

Lean types whose values can be bound to a column or read from one are instances of `HostValue`.
-/

namespace TypedSql

/-- The kinds of value that an application exchanges with the server. -/
inductive HostKind where
  | bool
  | i8
  | u8
  | i16
  | u16
  | i32
  | u32
  | i64
  | u64
  | f32
  | f64
  | decimal
  | dateTime
  | time
  | year
  | string
  | bytes
  | json
  deriving DecidableEq, Repr

namespace HostKind

/-- Every kind. -/
def all : List HostKind :=
  [bool, i8, u8, i16, u16, i32, u32, i64, u64, f32, f64, decimal, dateTime, time, year, string,
   bytes, json]

/-- The kind's name in reports. -/
def text : HostKind → String
  | bool => "bool"
  | i8 => "i8"
  | u8 => "u8"
  | i16 => "i16"
  | u16 => "u16"
  | i32 => "i32"
  | u32 => "u32"
  | i64 => "i64"
  | u64 => "u64"
  | f32 => "f32"
  | f64 => "f64"
  | decimal => "decimal"
  | dateTime => "datetime"
  | time => "time"
  | year => "year"
  | string => "string"
  | bytes => "bytes"
  | json => "json"

theorem mem_all (k : HostKind) : k ∈ all := by
  cases k <;> decide

end HostKind

/-- A kind of value, with or without NULL. -/
structure HostType where
  /-- What the values are. -/
  kind : HostKind
  /-- Whether NULL is one of them. -/
  nullable : Bool
  deriving DecidableEq, Repr

namespace HostType

/-- The values of a kind, without NULL. -/
def plain (kind : HostKind) : HostType :=
  ⟨kind, false⟩

/-- The same values and NULL. -/
def orNull (h : HostType) : HostType :=
  ⟨h.kind, true⟩

/-- Nullable types are written `Option<kind>`. -/
def text (h : HostType) : String :=
  if h.nullable then "Option<" ++ h.kind.text ++ ">" else h.kind.text

/-- Every host type. -/
def all : List HostType :=
  HostKind.all.flatMap fun k => [⟨k, false⟩, ⟨k, true⟩]

theorem mem_all (h : HostType) : h ∈ all := by
  obtain ⟨k, n⟩ := h
  simp only [all, List.mem_flatMap]
  exact ⟨k, k.mem_all, by cases n <;> simp⟩

end HostType

/-- Types whose values stand for column values. -/
class HostValue (α : Type) where
  /-- The host type of these values. -/
  hostType : HostType

instance : HostValue Bool := ⟨.plain .bool⟩
instance : HostValue Int8 := ⟨.plain .i8⟩
instance : HostValue UInt8 := ⟨.plain .u8⟩
instance : HostValue Int16 := ⟨.plain .i16⟩
instance : HostValue UInt16 := ⟨.plain .u16⟩
instance : HostValue Int32 := ⟨.plain .i32⟩
instance : HostValue UInt32 := ⟨.plain .u32⟩
instance : HostValue Int64 := ⟨.plain .i64⟩
instance : HostValue UInt64 := ⟨.plain .u64⟩
instance : HostValue Float32 := ⟨.plain .f32⟩
instance : HostValue Float := ⟨.plain .f64⟩
instance : HostValue String := ⟨.plain .string⟩
instance : HostValue ByteArray := ⟨.plain .bytes⟩

/-- An optional value is the value or NULL. -/
instance {α : Type} [HostValue α] : HostValue (Option α) :=
  ⟨(HostValue.hostType α).orNull⟩

end TypedSql
