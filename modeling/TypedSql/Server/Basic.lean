/-
A server that follows a script, and the channels to it. It numbers the connections that reach it,
answers requests as the script says, and keeps a log of what it saw. A request that fails on its
channel does not reach it.
-/
import TypedSql.Server.Channel
import TypedSql.Server.Script

namespace TypedSql

/-- What a server saw, with the number of the connection that it came from. -/
inductive ServerEvent where
  | opened (number : Nat) (user : String) (withPassword : Bool) (database : Option String)
  /-- Turned away before the login. -/
  | refused (number : Nat)
  /-- Cut off before the login. -/
  | dropped (number : Nat)
  | query (number : Nat) (text : String)
  | execute (number : Nat) (statement : BoundStatement)
  | changedUser (number : Nat) (user : String) (withPassword : Bool) (database : String)
  deriving DecidableEq, Repr

/-- A server. -/
structure Server where
  /-- The sockets at which it listens. -/
  sockets : List String
  script : Script
  /-- The number of connections so far. -/
  arrivals : Nat := 0
  /-- What it saw, the latest first. -/
  log : List ServerEvent := []
  /-- The channels of links, by their numbers. -/
  channels : List (Nat × Channel) := []

namespace Server

/-- The text under which a script keeps the replies to new connections. -/
def openingKey : String := "@connect"

/-- The text under which a script keeps the replies to changes of user. -/
def changeUserKey : String := "@change_user"

/-- The server after an event. -/
def saw (s : Server) (event : ServerEvent) : Server :=
  { s with log := event :: s.log }

/-- The next act for a text. -/
def act (s : Server) (text : String) : Act × Server :=
  let (act, script) := s.script.next text
  (act, { s with script })

/-- The answer that an act gives, where all goes well being read off by `read`; none if there is
never an answer. -/
def replyOf {α : Type} (read : Act → α) : Act → Option (Except LinkError α)
  | .error e => some (.error e)
  | .refuse code message => some (.error (Act.refusal code message))
  | .close => some (.error Act.cutOff)
  | .hang | .cancelled => none
  | act => some (.ok (read act))

/-- The rows that an act sends. -/
def rowsOf : Act → List ServerRow
  | .rows columns lines =>
    lines.map fun row => columns.zip (row.map fun text =>
      some (text.elim Value.null fun t => .bytes t.toUTF8.toList))
  | _ => []

/-- The sizes of the packets that an act sends, a row having a size by `rowSize`. -/
def sizesOf (rowSize : ServerRow → Nat) : Act → List Nat
  | .error e => [Channel.errorSize e]
  | act => (rowsOf act).map rowSize

/-! ### Channels -/

/-- The server with a channel for a link. -/
def putChannel (s : Server) (number : Nat) (channel : Channel) : Server :=
  { s with channels := (number, channel) :: s.channels.filter fun entry => entry.1 != number }

/-- Takes a step on the channel of a link. -/
def onChannel {α : Type} (s : Server) (link : Link) (task : ChannelTask α) :
    Except LinkError α × Server :=
  match s.channels.lookup link.number with
  | none => (.error Channel.shut, s)
  | some channel =>
    let (result, channel) := task.run.run channel
    (result, s.putChannel link.number channel)

/-- What comes of a reply on its way back, in packets of some sizes. -/
def deliver {α : Type} (s : Server) (link : Link) (sizes : List Nat) :
    Option (Except LinkError α) → Option (Except LinkError α) × Server
  | none => (none, s)
  | some reply =>
    match s.onChannel link (Channel.receive sizes) with
    | (.error e, s) => (some (.error e), s)
    | (.ok _, s) => (some reply, s)

/-! ### Requests -/

/-- Whether a path is made of nothing but steps to where it is and above. -/
def isAbove (path : String) : Bool :=
  (Text.splitAt '/' path.toList).all fun step => [[], ['.'], ['.', '.']].contains step

/-- What the system says of a place where nobody listens. -/
def refused : String := "Connection refused (os error 111)"

/-- What the system says of a socket at which nobody listens. A name that begins with a zero byte is
not that of a file, and at a folder nobody listens. -/
def socketFailure (s : Server) (path : String) : String :=
  if path.isEmpty then "Invalid argument (os error 22)"
  else if path.startsWith "\x00" then refused
  else if path.contains '\x00' then "paths must not contain interior null bytes"
  else if 108 ≤ path.utf8ByteSize then "path must be shorter than SUN_LEN"
  else if isAbove path then refused
  else if s.sockets.any fun socket => (socket ++ "/").isPrefixOf path then
    "Not a directory (os error 20)"
  else "No such file or directory (os error 2)"

/-- A new connection. -/
def accept (s : Server) (target : Target) : Option (Except LinkError Link) × Server :=
  if target.options.socket.any s.sockets.contains then
    let number := s.arrivals
    let (act, s) := { s with arrivals := number + 1 }.act openingKey
    match act with
    | .refuse code message => (some (.error (Act.refusal code message)), s.saw (.refused number))
    | .close => (some (.error Act.cutOff), s.saw (.dropped number))
    | act =>
      if target.options.isEncrypted then (some (.error .noEncryption), s)
      else
        let s := s.saw (.opened number (target.user.getD "") target.password.isSome target.database)
        let s := s.putChannel number (.ofOptions target.options)
        (replyOf (fun _ => ⟨number⟩) act, s)
  else (some (.error (.transport (target.options.socket.elim refused s.socketFailure))), s)

/-- Has the server run a text. -/
def runText {α : Type} (s : Server) (link : Link) (text : String) (read : Act → α) :
    Option (Except LinkError α) × Server :=
  match s.onChannel link (Channel.send (Channel.textSize text)) with
  | (.error e, s) => (some (.error e), s)
  | (.ok _, s) =>
    let (act, s) := (s.saw (.query link.number text)).act text
    s.deliver link (sizesOf Channel.textRowSize act) (replyOf read act)

/-- Has the server run a statement with values. It sees the bytes of moments and spans. -/
def runBound {α : Type} (s : Server) (link : Link) (statement : BoundStatement) (read : Act → α) :
    Option (Except LinkError α) × Server :=
  match s.onChannel link (Channel.sendBound statement) with
  | (.error e, s) => (some (.error e), s)
  | (.ok sent, s) =>
    let seen : BoundStatement := ⟨sent.text, sent.values.map Value.arrived⟩
    let (act, s) := (s.saw (.execute link.number seen)).act sent.text
    s.deliver link (sizesOf Channel.boundRowSize act) (replyOf read act)

/-- Turns a link to another user and database. Nothing that was prepared on it stays. -/
def changeUser (s : Server) (link : Link) (user password database : Option String) :
    Option (Except LinkError Unit) × Server :=
  match s.onChannel link (Channel.send 0) with
  | (.error e, s) => (some (.error e), s)
  | (.ok _, s) =>
    let event : ServerEvent :=
      .changedUser link.number (user.getD "") password.isSome (database.getD "")
    let (act, s) := (s.saw event).act changeUserKey
    match replyOf (fun _ => ()) act with
    | some (.ok _) =>
      let (result, s) := s.onChannel link (modify Channel.forget)
      (some result, s)
    | reply => (reply, s)

/-- Answers a request; none if it never does. -/
def reply (s : Server) : (q : Request) → Option (Except LinkError q.Reply) × Server
  | .openLink target => s.accept target
  | .query link text => s.runText link text rowsOf
  | .execute link text => s.runText link text Act.changedRows
  | .queryBound link statement => s.runBound link statement rowsOf
  | .executeBound link statement => s.runBound link statement Act.changedRows
  | .changeUser link user password database => s.changeUser link user password database
  | .disconnect _ => (some (.ok ()), s)

/-- Answers a request, the view being the same all the time. -/
def answer (view : View) (q : Request) (s : Server) : Server × Option (Answer q) :=
  let (reply, s) := s.reply q
  (s, reply.map (⟨·, view⟩))

/-- Runs an operation against the server. Where the server never answers, the operation is given
up. -/
def run {σ α : Type} (s : Server) (view : View) (operation : Exchange σ α) (state : σ) :
    Server × σ × Except ConnectionError α :=
  let (s, outcome) := (operation.start view state).run (answer view) s
  (s, outcome.left, Exchange.resultOf outcome)

end Server

end TypedSql
