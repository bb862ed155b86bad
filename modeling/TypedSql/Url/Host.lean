/-
Hosts in URLs. Where hosts are domain names, a host is a name or an address; elsewhere it is any
text without the marks of URLs, or an address in brackets.

Main statement: `readOpaque_nil` (an empty text names no host).
-/
import TypedSql.Url.Address
import TypedSql.Url.Domain

namespace TypedSql

/-- Why a text is no URL. -/
inductive UrlError where
  /-- No scheme stands before the first colon. -/
  | noScheme
  | badPort
  /-- There is a port or a user but no host, or the scheme asks for one. -/
  | emptyHost
  /-- The host has a character that no host may have. -/
  | badCharacter
  /-- The host is not a domain name. -/
  | badName
  /-- The host ends in a number, but is no address. -/
  | badAddress4
  /-- The host is in brackets, but is no address. -/
  | badAddress6
  deriving DecidableEq, Repr

/-- The report of a text that is no URL. -/
def UrlError.message : UrlError → String
  | noScheme => "relative URL without a base"
  | badPort => "invalid port number"
  | emptyHost => "empty host"
  | badCharacter => "invalid domain character"
  | badName => "invalid international domain name"
  | badAddress4 => "invalid IPv4 address"
  | badAddress6 => "invalid IPv6 address"

/-- A host. -/
inductive Host where
  | name (text : String)
  /-- An address of 32 bits. -/
  | address4 (number : Nat)
  /-- An address of 128 bits, in pieces of 16 bits. -/
  | address6 (pieces : List Nat)
  deriving DecidableEq, Repr

namespace Host

/-- Reads an address behind its opening bracket. -/
def readBrackets (cs : List Char) : Except UrlError Host :=
  if cs.getLast? = some ']' then
    match Url.address6? cs.dropLast with
    | some pieces => .ok (.address6 pieces)
    | none => .error .badAddress6
  else .error .badAddress6

/-- Reads a host that is a domain name or an address. -/
def readDomain : List Char → Except UrlError Host
  | '[' :: cs => readBrackets cs
  | cs =>
    match (Text.Utf8.decode? (Url.unescapedBytes cs)).bind fun text =>
      Url.Domain.labels? text.toList with
    | none => .error .badName
    | some labels =>
      if labels = [[]] then .error .emptyHost
      else if Url.endsInNumber labels then
        match Url.address4? labels with
        | some number => .ok (.address4 number)
        | none => .error .badAddress4
      else .ok (.name (".".intercalate (labels.map String.ofList)))

/-- Characters that no host may have. -/
def isForbidden (c : Char) : Bool :=
  ['\x00', '\t', '\n', '\r', ' ', '#', '/', ':', '<', '>', '?', '@', '[', '\\', ']', '^',
    '|'].contains c

/-- The text of a host, in which every byte outside of printable ASCII is an escape. -/
def escaped (cs : List Char) : String :=
  String.ofList (cs.flatMap fun c =>
    if ' ' ≤ c ∧ c ≤ '~' then [c] else c.toString.toUTF8.toList.flatMap Url.escapeByte)

/-- Reads a host that is any text or an address in brackets; none is named by an empty text. -/
def readOpaque : List Char → Except UrlError (Option Host)
  | [] => .ok none
  | '[' :: cs => (readBrackets cs).map some
  | cs => if cs.any isForbidden then .error .badCharacter else .ok (some (.name (escaped cs)))

@[simp] theorem readOpaque_nil : readOpaque [] = .ok none := rfl

end Host

end TypedSql
