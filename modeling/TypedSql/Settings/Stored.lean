/-
The stored form of settings: a JSON document. What a document leaves out takes its default.
-/
import TypedSql.Json.Printer
import TypedSql.Json.Reader
import TypedSql.Settings.Basic

namespace TypedSql

open Json (entry)

namespace Duration

/-- The stored form of a length of time. -/
def toJson (d : Duration) : Json :=
  .object [entry "secs" (.ofNat d.seconds.toNat), entry "nanos" (.ofNat d.nanos.toNat)]

/-- Reads a stored length of time. Nanoseconds beyond a second are carried, as far as the seconds
have room. -/
def ofJson? (j : Json) : Option Duration := do
  match ← j.fields? ["secs", "nanos"] true with
  | [seconds, nanos] =>
    let seconds ← (← seconds).toNat? UInt64.size
    let nanos ← (← nanos).toNat? UInt32.size
    let carried := seconds + nanos / nanosPerSecond
    if carried < UInt64.size then
      pure (ofSeconds carried ⟨nanos % nanosPerSecond, Nat.mod_lt _ (by decide)⟩)
    else none
  | _ => none

end Duration

namespace Settings

/-- The stored form of settings. -/
def toJson (s : Settings) : Json :=
  .object [entry "connection_string" (.ofText s.connectionString),
    entry "read_pool_size" (.ofNat s.readPoolSize.toNat),
    entry "write_pool_size" (.ofNat s.writePoolSize.toNat),
    entry "open_retry_cooldown" s.cooldown.toJson]

/-- A field of a stored record, or its default where it is missing. -/
def fieldOr {α : Type} (default : α) (read : Json → Option α) : Option Json → Option α
  | none => some default
  | some j => read j

/-- A stored pool size. -/
def readSize? (j : Json) : Option UInt64 :=
  (j.toNat? UInt64.size).map UInt64.ofNat

/-- Reads stored settings from a document. -/
def ofJson? (j : Json) : Option Settings := do
  let defaults : Settings := {}
  match ← j.fields?
    ["connection_string", "read_pool_size", "write_pool_size", "open_retry_cooldown"] false with
  | [connectionString, readers, writers, cooldown] =>
    pure ⟨← fieldOr defaults.connectionString Json.toText? connectionString,
      ← fieldOr defaults.readPoolSize readSize? readers,
      ← fieldOr defaults.writePoolSize readSize? writers,
      ← fieldOr defaults.cooldown Duration.ofJson? cooldown⟩
  | _ => none

/-- Writes settings as text. -/
def store (s : Settings) : String :=
  s.toJson.text

/-- Reads stored settings. -/
def load? (text : String) : Option Settings := do
  ofJson? (← Json.read? text)

end Settings

end TypedSql
