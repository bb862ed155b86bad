/-
Letters and case. Two comparisons are used throughout: one that ignores the case of ASCII
letters only, and one by simple case folding, under which the long s and the Kelvin sign are
spellings of `s` and `k`.
-/

namespace TypedSql.Text

/-- The text with its ASCII letters in lower case. -/
def lower (cs : List Char) : List Char :=
  cs.map Char.toLower

/-- Equality up to the case of ASCII letters. -/
def sameIgnoringCase (s t : String) : Bool :=
  lower s.toList == lower t.toList

/-- Whether `part` occurs in `whole` as a run of neighbouring characters. -/
def occursIn (part : List Char) : List Char → Bool
  | [] => part.isEmpty
  | c :: rest => part.isPrefixOf (c :: rest) || occursIn part rest

/-- Simple case folding on the characters that fold to an ASCII letter: `K` and the Kelvin sign
to `k`, `S` and the long s to `s`, and each other capital to its small letter. -/
def foldCase (c : Char) : Char :=
  if c = '\u017F' then 's' else if c = '\u212A' then 'k' else c.toLower

/-- Whether a character folds to one of the letters `a` to `z`. -/
def foldsToLetter (c : Char) : Bool :=
  'a' ≤ foldCase c && foldCase c ≤ 'z'

/-- Whether a character may stand in a plain identifier: an ASCII letter or digit, `_` or `$`. -/
def isIdentifierChar (c : Char) : Bool :=
  c.isAlphanum || c == '_' || c == '$'

/-! ### Laws -/

theorem sameIgnoringCase_refl (s : String) : sameIgnoringCase s s = true := by
  simp [sameIgnoringCase]

theorem sameIgnoringCase_comm (s t : String) : sameIgnoringCase s t = sameIgnoringCase t s := by
  exact BEq.comm

theorem occursIn_iff {part whole : List Char} :
    occursIn part whole = true ↔ part <:+: whole := by
  induction whole with
  | nil => simp [occursIn]
  | cons c rest ih =>
    rw [occursIn, Bool.or_eq_true, ih, List.infix_cons_iff, List.isPrefixOf_iff_prefix]

end TypedSql.Text
