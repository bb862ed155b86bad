/-
A connection: one link to the server, opened when it is first needed, given up when it breaks, and
turned to another target when the settings say so.

    unconnected → connecting → opened
    opened → broken            (a fatal failure, an abandoned operation, another endpoint)
    opened → closed            (close)
    broken, closed → connecting  (the next use)

An operation marks the connection while it waits for the server, and takes the mark away when the
answer comes. A mark that is found at the start of an operation is that of an abandoned one, whose
answer may still arrive on the link; so the link is given up.
-/
import TypedSql.Connection.Cooldown
import TypedSql.Connection.Request

namespace TypedSql

/-- Where a connection stands. -/
inductive Phase where
  | unconnected
  | connecting
  | opened
  | broken
  | closed
  deriving DecidableEq, Repr

/-- The name of a phase. -/
def Phase.label : Phase → String
  | unconnected => "Unconnected"
  | connecting => "Connecting"
  | opened => "Open"
  | broken => "Broken"
  | closed => "Closed"

/-- One connection. -/
structure Connection where
  link : Option Link
  /-- What the link was opened with or turned to. -/
  target : Option Target
  subscription : Subscription
  /-- Whether an operation waits for the server. -/
  inFlight : Bool
  phase : Phase
  /-- The cool-down of opening. -/
  opener : Cooldown ConnectionError
  deriving DecidableEq, Repr

namespace Connection

/-- A connection that is not open yet. The cool-down is that of the settings at this time. -/
def ofStore (store : Store) : Connection where
  link := none
  target := none
  subscription := store.subscribe
  inFlight := false
  phase := .unconnected
  opener := { window := store.current.cooldown.toNanos }

/-- What a log says of a connection. -/
def describe (c : Connection) : String :=
  "ManagedConnection \x7b state: " ++ c.phase.label ++ " \x7d"

/-! ### Steps that ask nothing -/

/-- Gives up the link, which is broken. -/
def discard (c : Connection) : Connection :=
  { c with link := none, target := none, phase := .broken }

/-- Gives up the link that an abandoned operation has left behind. -/
def recover (c : Connection) : Connection :=
  if c.inFlight then
    let c := { c with inFlight := false }
    if c.link.isSome then c.discard else c
  else c

/-- The connection after an operation on its link failed. -/
def failed (c : Connection) (e : LinkError) : Connection :=
  if e.isFatal then c.discard else c

/-! ### Operations -/

/-- Takes the mark away and hears how the operation on the link ended. -/
def settle {α : Type} (reply : Except LinkError α) : Exchange Connection α := do
  modify fun c => { c with inFlight := false }
  match reply with
  | .ok a => pure a
  | .error e =>
    modify fun c => c.failed e
    throw (.classify e)

/-- The target that the settings name. -/
def targetOf (settings : Settings) : Except ConnectionError Target :=
  match Target.read settings.connectionString with
  | .ok target => .ok target
  | .error e => .error (.invalidConnectionString e.message)

/-- Turns an open link to a target: a link to the same endpoint changes its user and database,
another one is given up. -/
def turn (link : Link) (current next : Target) : Exchange Connection Unit := do
  if current.sameEndpoint next then
    modify fun c => { c with inFlight := true }
    settle (← Exchange.request (.changeUser link next.user next.password next.database))
    modify fun c => { c with target := some next }
  else
    modify discard
    -- how the farewell goes is of no interest
    let _ ← Exchange.request (.disconnect link)

/-- Follows the settings, if they have changed. -/
def retarget : Exchange Connection Unit := do
  let { store, .. } ← Exchange.view
  let c ← get
  if store.hasChanged c.subscription then
    modify fun c => { c with subscription := store.markSeen c.subscription }
    match c.link, c.target with
    | some link, some current =>
      turn link current (← Exchange.ofExcept (targetOf store.current))
    | _, _ => pure ()

/-- Tries to open a link with some settings. -/
def tryOpen (settings : Settings) :
    Exchange Connection (Except ConnectionError (Link × Target)) := do
  match targetOf settings with
  | .error e => pure (.error e)
  | .ok target =>
    match ← Exchange.request (.openLink target) with
    | .ok link => pure (.ok (link, target))
    | .error e => pure (.error (.opening e))

/-- Opens a link, unless an earlier failure to do so still stands. -/
def openLink : Exchange Connection Link := do
  let { now, store } ← Exchange.view
  let before ← get
  modify fun c => { c with phase := .connecting }
  let opening ← match before.opener.standing? now with
    | some e => pure (.error e)
    | none =>
      let opening ← tryOpen store.current
      let { now, .. } ← Exchange.view
      modify fun c => { c with opener := c.opener.settle now opening }
      pure opening
  match opening with
  | .ok (link, target) =>
    modify fun c => { c with link := some link, target := some target, phase := .opened }
    pure link
  | .error e =>
    modify fun c => { c with phase := before.phase }
    throw e

/-- Makes the connection ready for a statement, and marks it. -/
def ready : Exchange Connection Link := do
  modify recover
  retarget
  let link ← match (← get).link with
    | some link => pure link
    | none => openLink
  modify fun c => { c with inFlight := true }
  pure link

/-- Opens the connection now. -/
def connect : Exchange Connection Unit := do
  let _ ← ready
  modify fun c => { c with inFlight := false }

/-- Closes the link. The next use opens another one. -/
def close : Exchange Connection Unit := do
  let { link, .. } ← get
  modify fun c => { c with link := none, target := none, inFlight := false, phase := .closed }
  match link with
  | none => pure ()
  | some link =>
    match ← Exchange.request (.disconnect link) with
    | .ok _ => pure ()
    | .error e => throw (.classify e)

/-- Runs a statement and gives its rows. -/
def queryRows (text : String) : Exchange Connection (List TextRow) := do
  let link ← ready
  let rows : List ServerRow ← settle (← Exchange.request (.query link text))
  pure (rows.map TextRow.ofCells)

/-- Runs a statement and gives the number of rows that it changed. -/
def execute (text : String) : Exchange Connection UInt64 := do
  let link ← ready
  settle (← Exchange.request (.execute link text))

/-- The statement with its values. -/
def bound (statement : Statement) (bindings : Bindings) : Except ConnectionError BoundStatement :=
  match statement.bind bindings with
  | .ok b => .ok b
  | .error name => .error (.missingParameter name)

/-- Runs a statement with values and gives its rows. -/
def queryBound (statement : Statement) (bindings : Bindings) :
    Exchange Connection (List TextRow) := do
  let b ← Exchange.ofExcept (bound statement bindings)
  let link ← ready
  let rows : List ServerRow ← settle (← Exchange.request (.queryBound link b))
  pure (rows.map TextRow.ofCells)

/-- Runs a statement with values and gives the number of rows that it changed. -/
def executeBound (statement : Statement) (bindings : Bindings) : Exchange Connection UInt64 := do
  let b ← Exchange.ofExcept (bound statement bindings)
  let link ← ready
  settle (← Exchange.request (.executeBound link b))

/-! ### Laws -/

@[simp] theorem inFlight_recover (c : Connection) : c.recover.inFlight = false := by
  cases h : c.inFlight <;> cases hl : c.link <;> simp [recover, discard, h, hl]

theorem recover_of_not_inFlight {c : Connection} (h : c.inFlight = false) : c.recover = c := by
  simp [recover, h]

/-- No link that an operation was abandoned on outlives the next one's start. -/
theorem link_recover_of_inFlight {c : Connection} (h : c.inFlight = true) :
    c.recover.link = none := by
  cases hl : c.link <;> simp [recover, discard, h, hl]

end Connection

end TypedSql
