/-
The column name that a property gets by default: its letters in upper case, with an underscore
before each word. A capital starts a word after a small letter, after a digit, and between a
capital and a small letter, so `UserID` becomes `USER_ID` and `HTTPServer` becomes `HTTP_SERVER`.
-/

namespace TypedSql

/-- Whether `c` starts a word, between the character before it and the one after it. -/
def startsWord (before : Option Char) (c : Char) (after : Option Char) : Bool :=
  c.isUpper && before.any fun p =>
    p.isLower || p.isDigit || (p.isUpper && after.any Char.isLower)

/-- The words of a text in upper case and joined by underscores; `before` is the character in
front of the text. -/
def upperSnakeFrom (before : Option Char) : List Char → List Char
  | [] => []
  | c :: rest =>
    let word := c.toUpper :: upperSnakeFrom (some c) rest
    if startsWord before c rest.head? then '_' :: word else word

/-- The default column name of a property. -/
def upperSnake (name : String) : String :=
  String.ofList (upperSnakeFrom none name.toList)

theorem startsWord_none (c : Char) (after : Option Char) : startsWord none c after = false := by
  rw [startsWord, Option.any_none, Bool.and_false]

/-- The first character starts no word. -/
theorem upperSnakeFrom_none_cons (c : Char) (rest : List Char) :
    upperSnakeFrom none (c :: rest) = c.toUpper :: upperSnakeFrom (some c) rest := by
  rw [upperSnakeFrom, startsWord_none, if_neg Bool.false_ne_true]

end TypedSql
