/-
Placeholders in a statement's text: an `@` with a name of ASCII letters, digits, `$` and `_` right
behind it, as long as it goes. A text is split into its placeholders and the characters between
them.

Main statement: `spell_segments` (nothing is lost by splitting).
-/
import TypedSql.Text.Letter

namespace TypedSql

/-- A character outside placeholders, or a placeholder. -/
inductive Segment where
  | plain (c : Char)
  | placeholder (name : List Char)
  deriving DecidableEq, Repr

namespace Segment

/-- The text of a segment. -/
def spell : Segment → List Char
  | plain c => [c]
  | placeholder name => '@' :: name

/-- The segments of an `@` and the name characters behind it. A lone `@` is plain. -/
def ofName (name : List Char) : Segment :=
  if name.isEmpty then plain '@' else placeholder name

/-- Splits a text. Where an `@` has been passed, the first argument holds the name characters
behind it. -/
def splitFrom : Option (List Char) → List Char → List Segment
  | none, [] => []
  | some name, [] => [ofName name]
  | none, c :: rest => if c = '@' then splitFrom (some []) rest else plain c :: splitFrom none rest
  | some name, c :: rest =>
    if Text.isIdentifierChar c then splitFrom (some (name ++ [c])) rest
    else if c = '@' then ofName name :: splitFrom (some []) rest
    else ofName name :: plain c :: splitFrom none rest

/-- The segments of a text. -/
def split (cs : List Char) : List Segment :=
  splitFrom none cs

/-- The name of a placeholder. -/
def name? : Segment → Option String
  | plain _ => none
  | placeholder name => some (String.ofList name)

/-- The segments with every placeholder written by `f` instead. -/
def fill (f : String → List Char) (segments : List Segment) : List Char :=
  segments.flatMap fun
    | plain c => [c]
    | placeholder name => f (String.ofList name)

/-! ### Laws -/

theorem spell_ofName (name : List Char) : (ofName name).spell = '@' :: name := by
  cases name <;> simp [ofName, spell]

theorem spell_splitFrom (pending : Option (List Char)) (cs : List Char) :
    (splitFrom pending cs).flatMap spell = (pending.elim [] ('@' :: ·)) ++ cs := by
  induction cs generalizing pending with
  | nil => cases pending <;> simp [splitFrom, spell_ofName]
  | cons c rest ih =>
    cases pending with
    | none => by_cases h : c = '@' <;> simp [splitFrom, h, ih, spell]
    | some name =>
      by_cases hname : Text.isIdentifierChar c = true
      · simp [splitFrom, hname, ih]
      · by_cases h : c = '@'
        · subst h
          simp [splitFrom, show Text.isIdentifierChar '@' = false by decide, ih, spell_ofName]
        · simp [splitFrom, hname, h, ih, spell_ofName, show (plain c).spell = [c] from rfl]

theorem spell_segments (cs : List Char) : (split cs).flatMap spell = cs := by
  simp [split, spell_splitFrom]

end Segment

/-- The names of the placeholders in a text, in order, repeats included. -/
def placeholders (text : String) : List String :=
  (Segment.split text.toList).filterMap Segment.name?

/-- A text with every placeholder written by `f` instead. -/
def substitute (f : String → List Char) (text : String) : String :=
  String.ofList (Segment.fill f (Segment.split text.toList))

end TypedSql
