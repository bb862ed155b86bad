/-
Type declarations, such as `bigint(20) unsigned` or `varchar(64)`: how one is read and written.

A declaration is a family name, an optional list of arguments in parentheses, and the optional
words `unsigned` and `zerofill` in this order, with white space around them. Letters are compared
by simple case folding, the name itself after ASCII lower-casing only.
-/
import TypedSql.Text.Blank
import TypedSql.Text.Letter
import TypedSql.Text.Numeral
import TypedSql.Text.Split
import TypedSql.Types.Registry

namespace TypedSql

/-- The meaning of a type declaration. -/
structure Declaration where
  /-- Name of the family. -/
  family : String
  /-- First argument, where it is a number. -/
  length : Option UInt32
  /-- Second argument, where it is a number. -/
  scale : Option UInt32
  host : HostType
  native : NativeType
  nullable : Bool
  unsigned : Bool
  deriving DecidableEq, Repr

namespace Declaration

open Text

/-! ### The parts of a declaration -/

/-- A declaration taken apart, before its name is looked up. -/
structure Parts where
  name : List Char
  arguments : List Char
  unsigned : Bool
  deriving DecidableEq, Repr

/-- The text after white space and a word that folds to `word`. -/
def afterWord? (word : String) (cs : List Char) : Option (List Char) :=
  let inner := trimStart cs
  let length := word.toList.length
  if inner.length < cs.length && (inner.take length).map foldCase == word.toList then
    some (inner.drop length)
  else none

/-- Whether nothing but white space is left, after `zerofill` if that word comes next. -/
def endsAfterZerofill (cs : List Char) : Bool :=
  cs.all isBlank || ((afterWord? "zerofill" cs).any fun rest => rest.all isBlank)

/-- Reads what follows the name and the arguments: whether `unsigned` is there. -/
def readModifiers? (cs : List Char) : Option Bool :=
  match afterWord? "unsigned" cs with
  | some rest => if endsAfterZerofill rest then some true else none
  | none => if endsAfterZerofill cs then some false else none

/-- Takes a declaration apart. The arguments end at the first closing parenthesis. -/
def Parts.read? (cs : List Char) : Option Parts :=
  let text := trimStart cs
  let name := text.takeWhile foldsToLetter
  let rest := text.dropWhile foldsToLetter
  if name.isEmpty then none
  else match trimStart rest with
    | '(' :: inner =>
      match inner.dropWhile (· != ')') with
      | [] => none
      | _ :: after =>
        (readModifiers? after).map fun unsigned =>
          ⟨name, inner.takeWhile (· != ')'), unsigned⟩
    | _ => (readModifiers? rest).map fun unsigned => ⟨name, [], unsigned⟩

/-! ### Arguments -/

/-- An argument as a number of 32 bits, white space around it aside. -/
def argument? (cs : List Char) : Option UInt32 :=
  (readNumeral? UInt32.size (trim cs)).map UInt32.ofNat

/-- The numbers among the arguments, place by place. -/
def arguments (cs : List Char) : List (Option UInt32) :=
  (splitAt ',' cs).map argument?

/-! ### Reading and writing -/

/-- The family of a declaration. The server reports a truth value as `tinyint(1)`. -/
def familyFor (family : String) (length : Option UInt32) (unsigned : Bool) : String :=
  if family = "tinyint" ∧ length = some 1 ∧ unsigned = false then "bool" else family

/-- The meaning of a declaration taken apart. -/
def ofParts? (r : Registry) (parts : Parts) (nullable : Bool) : Option Declaration := do
  let family ← r.family? (String.ofList (lower parts.name))
  let numbers := arguments parts.arguments
  let length := numbers[0]?.join
  let scale := numbers[1]?.join
  let family := familyFor family length parts.unsigned
  let variant ← r.variant? family nullable parts.unsigned
  pure ⟨family, length, scale, variant.host, variant.native, nullable, parts.unsigned⟩

/-- Reads a declaration of a column that admits NULL or does not. -/
def read (r : Registry) (text : String) (nullable : Bool) : Except TypeError Declaration :=
  match (Parts.read? text.toList).bind (ofParts? r · nullable) with
  | some declaration => .ok declaration
  | none => .error (.unparsable text)

/-- Length of a type that must have one, where none is given. -/
def defaultLength : UInt32 := 255

/-- The length that a declaration of a type is written with. -/
def writtenLength (native : NativeType) (length : Option UInt32) : Option UInt32 :=
  match length with
  | some n => some n
  | none => if native.requiresLength then some defaultLength else none

/-- A declaration name with a length, which stands before the word `unsigned`. -/
def withLength (name : String) (length : UInt32) : String :=
  let digits := "(" ++ toString length.toNat ++ ")"
  let cs := name.toList
  let modifier := " unsigned"
  if modifier.toList.isSuffixOf cs then
    String.ofList (cs.take (cs.length - modifier.toList.length)) ++ digits ++ modifier
  else name ++ digits

/-- Writes the declaration of a server type. -/
def write (r : Registry) (native : NativeType) (length : Option UInt32) :
    Except TypeError String := do
  let name ← r.nameOf native
  match writtenLength native length with
  | none => pure name
  | some n => pure (withLength name n)

end Declaration

end TypedSql
