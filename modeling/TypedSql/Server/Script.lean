/-
Scripts: what a server answers, by statement text. A text may have several replies in a row, the
last of which stands for good, and a reply may change the script.
-/
import TypedSql.Connection.Error
import TypedSql.Row.Basic

namespace TypedSql

/-- What a script has the server do. -/
inductive Act where
  /-- Sends no rows and changes none. -/
  | nothing
  /-- Sends rows. -/
  | rows (columns : List String) (lines : List (List (Option String)))
  /-- Reports a number of changed rows. -/
  | affected (count : UInt64)
  /-- Reports an error. -/
  | error (e : LinkError)
  /-- Reports an error before anybody has logged in, when errors have no state of their own. -/
  | refuse (code : UInt16) (message : String)
  /-- Drops the connection. -/
  | close
  /-- Never answers. -/
  | hang
  /-- Has the caller give up. -/
  | cancelled
  deriving DecidableEq, Repr

/-- An act, and the replies that it puts into the script. -/
inductive ScriptedReply where
  | mk (act : Act) (installs : List (String × List ScriptedReply))

namespace ScriptedReply

/-- What is done. -/
def act : ScriptedReply → Act
  | mk a _ => a

/-- The replies that are put into the script. -/
def installs : ScriptedReply → List (String × List ScriptedReply)
  | mk _ i => i

end ScriptedReply

/-- Replies by statement text. -/
structure Script where
  entries : List (String × List ScriptedReply)

namespace Script

/-- Writes the replies of a text, in place of earlier ones. -/
def put (s : Script) (text : String) (replies : List ScriptedReply) : Script :=
  ⟨(text, replies) :: s.entries.filter fun entry => entry.1 != text⟩

/-- Writes replies. -/
def install (s : Script) (entries : List (String × List ScriptedReply)) : Script :=
  entries.foldl (fun s entry => s.put entry.1 entry.2) s

/-- A script of given replies. -/
def ofList (entries : List (String × List ScriptedReply)) : Script :=
  install ⟨[]⟩ entries

/-- The next act for a text, and the script after it. -/
def next (s : Script) (text : String) : Act × Script :=
  match s.entries.lookup text with
  | none | some [] => (.nothing, s)
  | some (reply :: rest) =>
    let s := if rest.isEmpty then s else s.put text rest
    (reply.act, s.install reply.installs)

end Script

namespace Act

/-- The failure of a link that was cut. -/
def cutOff : LinkError := .transport "connection closed"

/-- The failure of a connection that is turned away. -/
def refusal (code : UInt16) (message : String) : LinkError := .server code "HY000" message

/-- The failure that an act shows to somebody who waits for an answer. -/
def failure? : Act → Option ConnectionError
  | error e => some (.classify e)
  | refuse code message => some (.classify (refusal code message))
  | close => some (.classify cutOff)
  | cancelled | hang => some .cancelled
  | nothing | rows .. | affected _ => none

/-- The rows of an act. -/
def textRows : Act → List TextRow
  | rows columns lines => lines.map (⟨columns, ·⟩)
  | _ => []

/-- The number of rows that an act says were changed. -/
def changedRows : Act → UInt64
  | affected n => n
  | _ => 0

/-- What an act answers, where all goes well being read off by `read`. -/
def outcome {α : Type} (read : Act → α) (act : Act) : Except ConnectionError α :=
  match act.failure? with
  | some e => .error e
  | none => .ok (read act)

end Act

end TypedSql
