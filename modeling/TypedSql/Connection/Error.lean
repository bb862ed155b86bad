/-
Failures of connections. What a link to the server reports is either fatal, so that the link is of
no further use, or concerns one statement only.

Main statement: `isFatal_classify` (a classified failure is fatal exactly when its link is dead).
-/
import TypedSql.Text.Letter

namespace TypedSql

/-- What a link to the server reports. -/
inductive LinkError where
  /-- An error of the server, with its code and state. -/
  | server (code : UInt16) (state message : String)
  /-- A failure of input or output. -/
  | transport (message : String)
  /-- The link was closed before. -/
  | closed
  /-- The pool that the link came from is gone. -/
  | poolGone
  /-- A text has both named marks and question marks. -/
  | mixedMarks
  /-- A statement takes another number of values than it was given. -/
  | valueCount (required supplied : Nat)
  /-- The link was to be encrypted, and the server has no encryption. -/
  | noEncryption
  | other (message : String)
  deriving DecidableEq, Repr

namespace LinkError

/-- The report of a link error. -/
def message : LinkError → String
  | server code state message =>
    "Server error: `ERROR " ++ state ++ " (" ++ toString code.toNat ++ "): " ++ message ++ "'"
  | transport message => "Input/output error: Input/output error: " ++ message
  | closed => "Driver error: `Connection to the server is closed.'"
  | poolGone => "Driver error: `Pool was disconnected.'"
  | mixedMarks => "Driver error: `Named and positional parameters mixed in one statement.'"
  | valueCount required supplied =>
    "Driver error: `Statement takes " ++ toString required ++ " parameters but " ++
      toString supplied ++ " was supplied.'"
  | noEncryption =>
    "Driver error: `Client asked for SSL but server does not have this capability.'"
  | other message => "Other error: " ++ message

/-- Codes that the server sends just before it drops a session: shutdown in progress, session
killed, session idle for too long. -/
def fatalCodes : List UInt16 := [1053, 1927, 4031]

/-- Whether a message of the server tells of a failure that ends the session. -/
def isFatalMessage (message : String) : Bool :=
  Text.occursIn "fatal error".toList (Text.lower message.toList)

/-- Whether the link is of no further use. -/
def isFatal : LinkError → Bool
  | server code _ message => fatalCodes.contains code || isFatalMessage message
  | transport _ => true
  | closed => true
  | poolGone | mixedMarks | valueCount .. | noEncryption | other _ => false

/-- The server's code. -/
def serverCode? : LinkError → Option UInt16
  | server code _ _ => some code
  | _ => none

end LinkError

/-- Failures of using a connection. -/
inductive ConnectionError where
  /-- The connection string says nothing that can be connected to. -/
  | invalidConnectionString (reason : String)
  /-- No link could be opened. -/
  | opening (error : LinkError)
  /-- The link is dead and has been discarded. -/
  | fatal (error : LinkError)
  /-- A statement failed; the link goes on. -/
  | statement (error : LinkError)
  /-- A placeholder has no value. -/
  | missingParameter (name : String)
  /-- The operation was abandoned. -/
  | cancelled
  deriving DecidableEq, Repr

namespace ConnectionError

/-- The report of a failure. -/
def message : ConnectionError → String
  | invalidConnectionString reason => "Invalid connection string: " ++ reason
  | opening error => "Failed to open connection: " ++ error.message
  | fatal error => "Fatal connection error: " ++ error.message
  | statement error => "Driver error: " ++ error.message
  | missingParameter name => "No value bound for parameter '" ++ name ++ "'"
  | cancelled => "Operation cancelled"

/-- The failure of an operation on an open link. -/
def classify (error : LinkError) : ConnectionError :=
  if error.isFatal then fatal error else statement error

/-- Whether the link was lost. -/
def isFatal : ConnectionError → Bool
  | fatal _ => true
  | _ => false

/-- Whether the same call may succeed later. -/
def isRetryable : ConnectionError → Bool
  | opening _ | fatal _ | cancelled => true
  | _ => false

/-- The server's code, where the server reported the failure. -/
def serverCode? : ConnectionError → Option UInt16
  | opening error | fatal error | statement error => error.serverCode?
  | _ => none

theorem isFatal_classify (error : LinkError) : (classify error).isFatal = error.isFatal := by
  cases h : error.isFatal <;> simp [classify, h, isFatal]

end ConnectionError

end TypedSql
