/-
Connection settings: where to connect, how many connections read and write, and how long a failed
attempt to connect stands. They are read from variables by name.
-/
import TypedSql.Text.Blank
import TypedSql.Text.Numeral
import TypedSql.Types.HostType

namespace TypedSql

/-- A length of time, to the nanosecond. -/
structure Duration where
  seconds : UInt64
  nanos : UInt32
  /-- The nanoseconds are less than a second. -/
  nanos_lt : nanos.toNat < 1000000000
  deriving DecidableEq, Repr

instance : HostValue Duration := ⟨.plain .time⟩

namespace Duration

/-- Nanoseconds of a second. -/
def nanosPerSecond : Nat := 1000000000

/-- A number of seconds and, on top of them, a number of nanoseconds less than a second. -/
def ofSeconds (seconds : Nat) (nanos : Fin nanosPerSecond) : Duration where
  seconds := UInt64.ofNat seconds
  nanos := UInt32.ofNat nanos
  nanos_lt := Nat.lt_of_le_of_lt (Nat.mod_le _ _) nanos.isLt

/-- One second. -/
def second : Duration :=
  ofSeconds 1 ⟨0, by decide⟩

/-- A number of milliseconds. -/
def ofMillis (n : Nat) : Duration :=
  ofSeconds (n / 1000) ⟨n % 1000 * 1000000, by unfold nanosPerSecond; omega⟩

/-- The length in nanoseconds. -/
def toNanos (d : Duration) : Nat :=
  nanosPerSecond * d.seconds.toNat + d.nanos.toNat

end Duration

/-- What connections are made with. -/
structure Settings where
  connectionString : String := ""
  readPoolSize : UInt64 := 1
  writePoolSize : UInt64 := 1
  /-- How long a failed attempt to open a connection is reported again without a new one. -/
  cooldown : Duration := .second
  deriving DecidableEq, Repr

/-- Failures of settings. -/
inductive SettingsError where
  | missing (name : String)
  | invalid (name value : String)
  deriving DecidableEq, Repr

/-- The report of a failure. -/
def SettingsError.message : SettingsError → String
  | missing name => name ++ " is not set"
  | invalid name value => name ++ " has invalid value '" ++ value ++ "'"

namespace Settings

/-- The variable of the connection string. -/
def connectionStringVariable : String := "DBCORE_CONNECTION_STRING"

/-- The variable of the number of connections that read. -/
def readPoolSizeVariable : String := "DBCORE_READ_POOL_SIZE"

/-- The variable of the number of connections that write. -/
def writePoolSizeVariable : String := "DBCORE_WRITE_POOL_SIZE"

/-- The variable of the cool-down in milliseconds. -/
def cooldownVariable : String := "DBCORE_RETRY_COOLDOWN_MS"

/-- Checks that each pool has a member. -/
def validate (s : Settings) : Except SettingsError Unit :=
  if s.readPoolSize = 0 then .error (.invalid readPoolSizeVariable "0")
  else if s.writePoolSize = 0 then .error (.invalid writePoolSizeVariable "0")
  else .ok ()

/-- Reads a number of 64 bits from a variable, white space around it aside; none where the variable
is not set. -/
def readNumber (lookup : String → Option String) (name : String) :
    Except SettingsError (Option Nat) :=
  match lookup name with
  | none => .ok none
  | some value =>
    match Text.readNumeral? UInt64.size (Text.trim value.toList) with
    | some n => .ok (some n)
    | none => .error (.invalid name value)

/-- Reads settings from variables. Only the connection string must be set. -/
def ofVariables (lookup : String → Option String) : Except SettingsError Settings := do
  match lookup connectionStringVariable with
  | none => throw (.missing connectionStringVariable)
  | some connectionString =>
    let readers ← readNumber lookup readPoolSizeVariable
    let writers ← readNumber lookup writePoolSizeVariable
    let cooldown ← readNumber lookup cooldownVariable
    let defaults : Settings := {}
    let settings : Settings := {
      connectionString
      readPoolSize := readers.elim defaults.readPoolSize UInt64.ofNat
      writePoolSize := writers.elim defaults.writePoolSize UInt64.ofNat
      cooldown := cooldown.elim defaults.cooldown Duration.ofMillis }
    settings.validate
    pure settings

end Settings

end TypedSql
