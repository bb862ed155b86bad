/-
Marks: the places that a prepared text leaves for values. A question mark is one, and a colon with a
name is another; a text has marks of one sort only. Marks do not count within quoted text, quoted
names and comments, where a comment that begins with `!` or `+` is not one. A quotation mark, or a
colon, that ends a name or stands behind a colon is read anew; anything else there is plain.

Main statement: `positional?_plain` (a text of letters and blanks is its own positional form).
-/

namespace TypedSql

/-- A part of a text. -/
inductive TextPiece where
  | plain (c : Char)
  /-- A question mark. -/
  | positional
  /-- A colon with a name. -/
  | named
  deriving DecidableEq, Repr

/-- Where a reader of a text stands. -/
inductive TextPlace where
  | outside
  /-- Within quotation marks of a kind, behind a character. -/
  | quoted (quotation last : Char)
  /-- Behind a colon, which is not written yet. -/
  | colon
  /-- Within the name of a mark. -/
  | name
  | quotedName
  /-- Within a comment that ends with the line. -/
  | lineComment
  | hyphen
  | hyphens
  | slash
  | slashStar
  | comment
  /-- Behind a star within a comment. -/
  | commentStar
  deriving DecidableEq, Repr

namespace TextPlace

/-- The place behind a character that is read anew. -/
def resumed (c : Char) : TextPlace :=
  if c = ':' then colon
  else if c = '\'' ∨ c = '"' then quoted c c
  else outside

/-- The place behind a character. Colons outside and the characters behind them are left to
`pieces`. -/
def next : TextPlace → Char → TextPlace
  | outside, c =>
    if c = '\'' ∨ c = '"' then quoted c c
    else if c = '\x60' then quotedName
    else if c = '#' then lineComment
    else if c = '-' then hyphen
    else if c = '/' then slash
    else outside
  | quoted quotation last, c =>
    if c = quotation ∧ last ≠ '\\' then outside else quoted quotation c
  | colon, c => resumed c
  | name, c => resumed c
  | quotedName, c => if c = '\x60' then outside else quotedName
  | lineComment, c => if c = '\n' then outside else lineComment
  | hyphen, c => if c = '-' then hyphens else outside
  | hyphens, c => if [' ', '\t', '\r', '\x0c'].contains c then lineComment else outside
  | slash, c => if c = '*' then slashStar else outside
  | slashStar, c => if c = '!' ∨ c = '+' then outside else comment
  | comment, c => if c = '*' then commentStar else comment
  | commentStar, c => if c = '/' then outside else comment

end TextPlace

/-- Whether the name of a mark may start with a character. -/
def startsMark (c : Char) : Bool :=
  c.isLower || c == '_'

/-- Whether the name of a mark goes on with a character. -/
def continuesMark (c : Char) : Bool :=
  startsMark c || c.isDigit

/-- A character that is written unless it is a colon, which waits. -/
def unlessColon (c : Char) : List TextPiece :=
  if c = ':' then [] else [.plain c]

/-- The pieces of a text. -/
def piecesFrom : TextPlace → List Char → List TextPiece
  | .colon, [] => [.plain ':']
  | _, [] => []
  | .outside, c :: rest =>
    if c = ':' then piecesFrom .colon rest
    else if c = '?' then .positional :: piecesFrom .outside rest
    else .plain c :: piecesFrom (TextPlace.outside.next c) rest
  | .colon, c :: rest =>
    if startsMark c then .named :: piecesFrom .name rest
    else .plain ':' :: (unlessColon c ++ piecesFrom (TextPlace.resumed c) rest)
  | .name, c :: rest =>
    if continuesMark c then piecesFrom .name rest
    else unlessColon c ++ piecesFrom (TextPlace.resumed c) rest
  | place, c :: rest => .plain c :: piecesFrom (place.next c) rest

/-- The character that a piece has in the positional form of a text. -/
def TextPiece.positionalChar : TextPiece → Char
  | plain c => c
  | positional | named => '?'

/-- The text with question marks for named marks; none if both sorts of marks are there. -/
def positional? (cs : List Char) : Option (List Char) :=
  let pieces := piecesFrom .outside cs
  if pieces.contains .named && pieces.contains .positional then none
  else some (pieces.map TextPiece.positionalChar)

/-! ### Laws -/

theorem piecesFrom_plain {cs : List Char} (h : ∀ c ∈ cs, c.isAlphanum ∨ c = ' ') :
    piecesFrom .outside cs = cs.map .plain := by
  induction cs with
  | nil => rfl
  | cons c rest ih =>
    have hc := h c (by simp)
    have hne : ∀ d : Char, d.isAlphanum = false → d ≠ ' ' → c ≠ d := by
      rintro d hd hblank rfl
      simp_all
    have hcolon := hne ':' (by decide) (by decide)
    have hquestion := hne '?' (by decide) (by decide)
    have hplace : TextPlace.outside.next c = .outside := by
      simp [TextPlace.next, hne '\'' (by decide) (by decide), hne '"' (by decide) (by decide),
        hne '\x60' (by decide) (by decide), hne '#' (by decide) (by decide),
        hne '-' (by decide) (by decide), hne '/' (by decide) (by decide)]
    rw [piecesFrom, if_neg hcolon, if_neg hquestion, hplace, ih fun d hd => h d (by simp [hd])]
    rfl

theorem positional?_plain {cs : List Char} (h : ∀ c ∈ cs, c.isAlphanum ∨ c = ' ') :
    positional? cs = some cs := by
  have hid : TextPiece.positionalChar ∘ TextPiece.plain = id := rfl
  simp [positional?, piecesFrom_plain h, hid]

end TypedSql
