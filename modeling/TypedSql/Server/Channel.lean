/-
Channels: what a link does on its own before anything reaches the server. Packets must not exceed a
limit; statements with values are prepared first, and the latest ones are kept for the next use.
What goes wrong on the way shuts the channel, unless it was found out before anything was to be
sent.

Main statements: `length_remember_le` (no more statements are kept than there is room for) and
`send_eq_ok_iff` (what is sent goes over an open channel and fits).
-/
import TypedSql.Connection.Request
import TypedSql.Row.Wire
import TypedSql.Statement.Mark

namespace TypedSql

/-- The near end of a link. -/
structure Channel where
  /-- The greatest size of a packet, where it is limited. -/
  packetLimit : Option Nat
  /-- How many prepared statements are kept. -/
  room : Nat
  /-- The prepared statements, the latest used first. -/
  prepared : List String := []
  isOpen : Bool := true
  deriving DecidableEq, Repr

/-- Steps of a channel. One that fails keeps what was done before. -/
abbrev ChannelTask (α : Type) := ExceptT LinkError (StateM Channel) α

namespace Channel

/-- The channel of a link that was opened with some options. -/
def ofOptions (options : LinkOptions) : Channel where
  packetLimit := options.packetLimit
  room := options.statementsKept

/-- Whether a packet fits. -/
def fits (c : Channel) (size : Nat) : Bool :=
  c.packetLimit.all (size ≤ ·)

/-- The failure of a packet that does not fit. -/
def tooLarge : LinkError := .transport "packet too large"

/-- The failure of a packet on a channel that is shut. -/
def shut : LinkError := .transport LinkError.closed.message

/-- The channel with a statement as the latest used. -/
def remember (c : Channel) (text : String) : Channel :=
  { c with prepared := (text :: c.prepared.erase text).take c.room }

/-- The channel after everything prepared on it is gone. -/
def forget (c : Channel) : Channel :=
  { c with prepared := [] }

/-! ### Sizes of packets -/

/-- The size of a command with a text. -/
def textSize (text : String) : Nat :=
  1 + text.utf8ByteSize

/-- The size of the command that runs a prepared statement: a head, and for each value a bit that
tells NULL, its type and its bytes. -/
def boundSize (values : List Value) : Nat :=
  10 + if values.isEmpty then 0
    else (values.length + 7) / 8 + 1 + 2 * values.length + totalSize (values.map Value.parameterSize)

/-- The size of a report of the server. -/
def errorSize : LinkError → Nat
  | .server _ _ message => 9 + message.utf8ByteSize
  | _ => 0

/-- The size of a value in a row. NULL takes `nullSize` bytes. -/
def cellSize (nullSize : Nat) : Option Value → Nat
  | some (.bytes content) => countedSize content.length
  | _ => nullSize

/-- The size of a row in answer to a text. -/
def textRowSize (row : ServerRow) : Nat :=
  totalSize (row.map fun cell => cellSize 1 cell.2)

/-- The size of a row in answer to a prepared statement. -/
def boundRowSize (row : ServerRow) : Nat :=
  1 + (row.length + 9) / 8 + totalSize (row.map fun cell => cellSize 0 cell.2)

/-! ### Steps -/

/-- Fails and shuts the channel. -/
def breakOff {α : Type} (e : LinkError) : ChannelTask α := do
  modify fun c => { c with isOpen := false }
  throw e

/-- Sends a packet. -/
def send (size : Nat) : ChannelTask Unit := do
  let c ← get
  if !c.isOpen then throw shut
  else if !c.fits size then breakOff tooLarge

/-- Takes packets in. -/
def receive (sizes : List Nat) : ChannelTask Unit := do
  let c ← get
  if !sizes.all c.fits then breakOff tooLarge

/-- Prepares a statement, unless it is kept. -/
def prepare (text : String) : ChannelTask Unit := do
  let c ← get
  if !c.prepared.contains text then send (textSize text)
  modify fun c => c.remember text

/-- The number of values that the server takes for a prepared text: one for each question mark,
wherever it stands. -/
def valuesTaken (text : List Char) : Nat :=
  text.count '?'

/-- Sends a statement with values, and gives it as it goes over the wire. -/
def sendBound (statement : BoundStatement) : ChannelTask BoundStatement := do
  match positional? statement.text.toList with
  | none => throw .mixedMarks
  | some text =>
    let sent : BoundStatement := ⟨String.ofList text, statement.values⟩
    prepare sent.text
    if valuesTaken text ≠ sent.values.length then
      breakOff (.valueCount (valuesTaken text) sent.values.length)
    send (boundSize sent.values)
    pure sent

/-! ### Laws -/

theorem length_remember_le (c : Channel) (text : String) :
    (c.remember text).prepared.length ≤ c.room :=
  List.length_take_le c.room _

theorem mem_remember {c : Channel} (text : String) (h : c.room ≠ 0) :
    text ∈ (c.remember text).prepared := by
  obtain ⟨n, hn⟩ := Nat.exists_eq_succ_of_ne_zero h
  simp [remember, hn]

theorem run_send (c : Channel) (size : Nat) :
    (send size).run.run c =
      if c.isOpen then
        if c.fits size then (.ok (), c) else (.error tooLarge, { c with isOpen := false })
      else (.error shut, c) := by
  show (if !c.isOpen then (throw shut : ChannelTask Unit)
    else if !c.fits size then breakOff tooLarge else pure ()).run.run c = _
  cases c.isOpen <;> cases c.fits size <;> rfl

/-- A packet is sent exactly if it fits and the channel is open. -/
theorem send_eq_ok_iff {c : Channel} {size : Nat} :
    ((send size).run.run c).1 = .ok () ↔ c.isOpen = true ∧ c.fits size = true := by
  rw [run_send]
  cases c.isOpen <;> cases c.fits size <;> simp

end Channel

end TypedSql
