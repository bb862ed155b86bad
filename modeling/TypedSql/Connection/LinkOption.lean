/-
Options of connection strings: `key=value` pairs of the query. Each option has a key, and its value
is of a kind; of several values for one key the last one counts, but all of them are checked, in the
order in which they stand.

Main statement: `check_eq_ok_iff` (which pairs are accepted).
-/
import TypedSql.Text.Numeral

namespace TypedSql

/-- The values that an option takes. -/
inductive OptionKind where
  /-- Any text. -/
  | text
  /-- A whole number below a bound. -/
  | number (bound : Nat)
  /-- `true` or `false`. -/
  | switch
  /-- How hard to compress: a word or a digit. -/
  | effort
  deriving DecidableEq, Repr

namespace OptionKind

/-- Whether a kind has a value. -/
def admits : OptionKind → String → Bool
  | text, _ => true
  | number bound, value => (Text.readNumeral? bound value.toList).isSome
  | switch, value => value == "true" || value == "false"
  | effort, value =>
    ["fast", "on", "true", "best"].contains value ||
      (value.length == 1 && value.toList.all Char.isDigit)

end OptionKind

/-- Why options are refused. -/
inductive OptionError where
  | unknown (key : String)
  | badValue (name value : String)
  /-- The least size of a pool is above the greatest one. -/
  | emptyRange (least most : Nat)
  deriving DecidableEq, Repr

/-- The report of a refusal. -/
def OptionError.message : OptionError → String
  | unknown key => "Unknown connection URL parameter \x60" ++ key ++ "'"
  | badValue name value =>
    "Invalid value \x60" ++ value ++ "' for connection URL parameter \x60" ++ name ++ "'"
  | emptyRange least most =>
    "Invalid pool constraints: pool_min (" ++ toString least ++ ") > pool_max (" ++
      toString most ++ ")."

/-- What a link is opened with, apart from where to and as whom. -/
structure LinkOptions where
  /-- The path of the server's local socket. -/
  socket : Option String := none
  /-- The greatest size of a packet, where it is limited. -/
  packetLimit : Option Nat := none
  /-- How many prepared statements a link keeps. -/
  statementsKept : Nat := 32
  /-- Whether the link must be encrypted. -/
  isEncrypted : Bool := false
  deriving DecidableEq, Repr

namespace LinkOptions

/-- The options by key. -/
def kinds : List (String × OptionKind) :=
  [("pool_min", .number UInt64.size), ("pool_max", .number UInt64.size),
   ("inactive_connection_ttl", .number UInt64.size), ("ttl_check_interval", .number UInt64.size),
   ("conn_ttl", .number UInt64.size), ("abs_conn_ttl", .number UInt64.size),
   ("abs_conn_ttl_jitter", .number UInt64.size), ("tcp_keepalive", .number UInt32.size),
   ("max_allowed_packet", .number UInt64.size), ("wait_timeout", .number UInt64.size),
   ("stmt_cache_size", .number UInt64.size), ("enable_cleartext_plugin", .switch),
   ("reset_connection", .switch), ("tcp_nodelay", .switch), ("prefer_socket", .switch),
   ("secure_auth", .switch), ("client_found_rows", .switch), ("require_ssl", .switch),
   ("verify_ca", .switch), ("verify_identity", .switch), ("built_in_roots", .switch),
   ("compression", .effort), ("socket", .text)]

/-- The name under which an option is reported. -/
def reportedName (key : String) : String :=
  if key = "tcp_keepalive" then "tcp_keepalive_ms" else key

/-- Checks one pair. -/
def checkPair (pair : String × String) : Except OptionError Unit :=
  match kinds.lookup pair.1 with
  | none => .error (.unknown pair.1)
  | some kind =>
    if kind.admits pair.2 then .ok () else .error (.badValue (reportedName pair.1) pair.2)

/-- Checks pairs one after the other. -/
def check : List (String × String) → Except OptionError Unit
  | [] => .ok ()
  | pair :: rest => do
    checkPair pair
    check rest

/-- The last value of a key. -/
def last? (pairs : List (String × String)) (key : String) : Option String :=
  pairs.reverse.lookup key

/-- The last number of a key. -/
def number? (pairs : List (String × String)) (key : String) : Option Nat := do
  Text.readNumeral? UInt64.size (← last? pairs key).toList

/-- A limit of packets is at least a kibibyte and at most a gibibyte. -/
def clampLimit (n : Nat) : Nat :=
  max 0x400 (min 0x40000000 n)

/-- Reads the options of a query. -/
def read (pairs : List (String × String)) : Except OptionError LinkOptions := do
  check pairs
  let least := (number? pairs "pool_min").getD 10
  let most := (number? pairs "pool_max").getD 100
  if most < least then throw (.emptyRange least most)
  let defaults : LinkOptions := {}
  pure {
    socket := last? pairs "socket"
    packetLimit := (number? pairs "max_allowed_packet").map clampLimit
    statementsKept := (number? pairs "stmt_cache_size").getD defaults.statementsKept
    isEncrypted := last? pairs "require_ssl" == some "true" }

/-! ### Laws -/

theorem checkPair_eq_ok_iff {pair : String × String} :
    checkPair pair = .ok () ↔ ∃ kind, kinds.lookup pair.1 = some kind ∧ kind.admits pair.2 := by
  rw [checkPair]
  cases kinds.lookup pair.1 with
  | none => simp
  | some kind => by_cases h : kind.admits pair.2 <;> simp [h]

theorem check_eq_ok_iff {pairs : List (String × String)} :
    check pairs = .ok () ↔
      ∀ pair ∈ pairs, ∃ kind, kinds.lookup pair.1 = some kind ∧ kind.admits pair.2 := by
  induction pairs with
  | nil => simp [check]
  | cons pair rest ih =>
    rw [check, List.forall_mem_cons, ← ih, ← checkPair_eq_ok_iff]
    cases checkPair pair with
    | error e => simp [bind, Except.bind]
    | ok u => simp [bind, Except.bind]

end LinkOptions

end TypedSql
