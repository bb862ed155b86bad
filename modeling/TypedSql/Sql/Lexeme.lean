/-
The lexemes of a statement: its words, marks, names, placeholders and numbers, and the white space
between them. A statement is put together from lexemes and spelled at the end, so that what a name
or a placeholder is never depends on its text.
-/
import TypedSql.Number.Style

namespace TypedSql

open Number (BinaryNumber Style binary64)

/-- A piece of a statement's text. -/
inductive Lexeme where
  /-- White space. -/
  | blank (text : String)
  /-- A reserved word, a function or a type, as the statement forms spell it. -/
  | word (text : String)
  /-- Punctuation or an operator. -/
  | mark (text : String)
  /-- A name in backticks. -/
  | name (text : String)
  /-- A placeholder of a bound value. -/
  | placeholder (parameter : String)
  | integer (value : Int64)
  | number (value : BinaryNumber)
  /-- The pattern that matches any text. -/
  | anyText
  deriving DecidableEq, Repr

namespace Lexeme

/-- The text of a lexeme. -/
def spell : Lexeme → String
  | blank text | word text | mark text => text
  | name text => "`" ++ text ++ "`"
  | placeholder parameter => "@" ++ parameter
  | integer value => toString value.toInt
  | number value => Style.literal.write binary64 value
  | anyText => "\"%\""

/-- The text of a list of lexemes. -/
def text (lexemes : List Lexeme) : String :=
  String.join (lexemes.map spell)

/-- A single space. -/
def space : Lexeme := blank " "

/-- Words with a space between each two. -/
def words (texts : List String) : List Lexeme :=
  (texts.map word).intersperse space

/-- Lists of lexemes with a separator between each two. -/
def joined (separator : List Lexeme) (parts : List (List Lexeme)) : List Lexeme :=
  (parts.intersperse separator).flatten

/-- Lists of lexemes with a comma between each two. -/
def commaSeparated (parts : List (List Lexeme)) : List Lexeme :=
  joined [mark ",", space] parts

/-- Lists of lexemes with a comma between each two and a new indented line for each. -/
def commaLines (parts : List (List Lexeme)) : List Lexeme :=
  joined [mark ",", blank "\n\t"] parts

/-- A table name qualified by its database. -/
def qualified (database table : String) : List Lexeme :=
  [name database, mark ".", name table]

theorem joined_singleton (separator first : List Lexeme) : joined separator [first] = first := by
  simp [joined]

theorem joined_cons_cons (separator first second : List Lexeme) (rest : List (List Lexeme)) :
    joined separator (first :: second :: rest) =
      first ++ separator ++ joined separator (second :: rest) := by
  simp [joined]

/-- What holds of no lexemes and of any two lists with the separator between them holds of joined
lists. -/
theorem joined_induction {P : List Lexeme → Prop} {separator : List Lexeme} (nil : P [])
    (between : ∀ {xs ys}, P xs → P ys → P (xs ++ separator ++ ys)) {parts : List (List Lexeme)}
    (h : ∀ ls ∈ parts, P ls) : P (joined separator parts) := by
  induction parts with
  | nil => exact nil
  | cons first rest ih =>
    obtain ⟨hfirst, hrest⟩ := List.forall_mem_cons.mp h
    cases rest with
    | nil => exact (joined_singleton separator first).symm ▸ hfirst
    | cons second rest =>
      rw [joined_cons_cons]
      exact between hfirst (ih hrest)

/-- Each of the lists stands in the joined one. -/
theorem infix_joined {separator ls : List Lexeme} {parts : List (List Lexeme)} (h : ls ∈ parts) :
    ls <:+: joined separator parts := by
  induction parts with
  | nil => exact absurd h List.not_mem_nil
  | cons first rest ih =>
    cases rest with
    | nil =>
      obtain rfl := List.mem_singleton.mp h
      exact (joined_singleton separator ls).symm ▸ List.infix_rfl
    | cons second rest =>
      rw [joined_cons_cons]
      obtain rfl | hrest := List.mem_cons.mp h
      · exact ⟨[], separator ++ joined separator (second :: rest), by simp⟩
      · exact (ih hrest).trans (List.suffix_append _ _).isInfix

@[simp] theorem text_nil : text [] = "" := rfl

theorem text_append (xs ys : List Lexeme) : text (xs ++ ys) = text xs ++ text ys := by
  simp [text, String.join_append]

theorem toList_text_cons (l : Lexeme) (ls : List Lexeme) :
    (text (l :: ls)).toList = l.spell.toList ++ (text ls).toList := by
  simp [text]

end Lexeme

end TypedSql
