/-
The server's column types and their one-byte codes. An unsigned integer type carries the code of
its signed partner with the high bit set.

Main statement: `ofCode?_code` (a code determines its type).
-/

namespace TypedSql

/-- A column type of the server. -/
inductive NativeType where
  | decimal
  | byte
  | uByte
  | int16
  | uInt16
  | int24
  | uInt24
  | int32
  | uInt32
  | int64
  | uInt64
  | float
  | double
  | null
  | timestamp
  | date
  | time
  | dateTime
  | year
  | varChar
  | bit
  | bool
  | binary
  | varBinary
  | tinyText
  | mediumText
  | longText
  | text
  | json
  | enum
  | set
  | tinyBlob
  | mediumBlob
  | longBlob
  | blob
  | char
  deriving DecidableEq, Repr

namespace NativeType

/-- Every column type. -/
def all : List NativeType :=
  [decimal, byte, uByte, int16, uInt16, int24, uInt24, int32, uInt32, int64, uInt64, float, double,
   null, timestamp, date, time, dateTime, year, varChar, bit, bool, binary, varBinary, tinyText,
   mediumText, longText, text, json, enum, set, tinyBlob, mediumBlob, longBlob, blob, char]

/-- The code that stands for a type on the wire. -/
def code : NativeType → UInt8
  | decimal => 0xf6
  | byte => 0x01
  | uByte => 0x81
  | int16 => 0x02
  | uInt16 => 0x82
  | int24 => 0x09
  | uInt24 => 0x89
  | int32 => 0x03
  | uInt32 => 0x83
  | int64 => 0x08
  | uInt64 => 0x88
  | float => 0x04
  | double => 0x05
  | null => 0x06
  | timestamp => 0x07
  | date => 0x0a
  | time => 0x0b
  | dateTime => 0x0c
  | year => 0x0d
  | varChar => 0x0f
  | bit => 0x10
  | bool => 0xe2
  | binary => 0xe0
  | varBinary => 0xe1
  | tinyText => 0xe9
  | mediumText => 0xea
  | longText => 0xeb
  | text => 0xec
  | json => 0xf5
  | enum => 0xf7
  | set => 0xf8
  | tinyBlob => 0xf9
  | mediumBlob => 0xfa
  | longBlob => 0xfb
  | blob => 0xfc
  | char => 0xfe

/-- The type with a given code. -/
def ofCode? (n : UInt8) : Option NativeType :=
  all.find? fun t => t.code == n

/-- The name that reports give a type. -/
def label : NativeType → String
  | decimal => "Decimal"
  | byte => "Byte"
  | uByte => "UByte"
  | int16 => "Int16"
  | uInt16 => "UInt16"
  | int24 => "Int24"
  | uInt24 => "UInt24"
  | int32 => "Int32"
  | uInt32 => "UInt32"
  | int64 => "Int64"
  | uInt64 => "UInt64"
  | float => "Float"
  | double => "Double"
  | null => "Null"
  | timestamp => "Timestamp"
  | date => "Date"
  | time => "Time"
  | dateTime => "DateTime"
  | year => "Year"
  | varChar => "VarChar"
  | bit => "Bit"
  | bool => "Bool"
  | binary => "Binary"
  | varBinary => "VarBinary"
  | tinyText => "TinyText"
  | mediumText => "MediumText"
  | longText => "LongText"
  | text => "Text"
  | json => "Json"
  | enum => "Enum"
  | set => "Set"
  | tinyBlob => "TinyBlob"
  | mediumBlob => "MediumBlob"
  | longBlob => "LongBlob"
  | blob => "Blob"
  | char => "Char"

/-- The unsigned integer types. -/
def isUnsigned : NativeType → Bool
  | uByte | uInt16 | uInt24 | uInt32 | uInt64 => true
  | _ => false

/-- The integer types. -/
def isInteger : NativeType → Bool
  | byte | uByte | int16 | uInt16 | int24 | uInt24 | int32 | uInt32 | int64 | uInt64 => true
  | _ => false

/-- The numeric types: integers, decimals and floating point. -/
def isNumeric : NativeType → Bool
  | decimal | float | double => true
  | t => t.isInteger

/-- The types that a column or routine parameter must declare with a length. -/
def requiresLength : NativeType → Bool
  | char | varChar | binary | varBinary => true
  | _ => false

theorem mem_all (t : NativeType) : t ∈ all := by
  cases t <;> decide

theorem ofCode?_code (t : NativeType) : ofCode? t.code = some t := by
  cases t <;> decide

end NativeType

end TypedSql
