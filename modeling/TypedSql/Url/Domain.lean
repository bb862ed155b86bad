/-
Domain names. Letters are brought to small ones, wide forms to plain ones, and characters that are
not seen are dropped; some characters have no place in a name at all. A label that begins with
`xn--` is read by Punycode and must be a name in its settled form.

Main statement: `fold_of_isSmall` (small letters of ASCII stand for themselves).
-/
import TypedSql.Text.Split
import TypedSql.Url.Punycode

namespace TypedSql.Url.Domain

/-- Whether a code point lies in one of some ranges. -/
def within (ranges : List (Nat × Nat)) (c : Char) : Bool :=
  ranges.any fun range => range.1 ≤ c.toNat && c.toNat ≤ range.2

/-- Characters that are not seen, such as the soft hyphen, and count nowhere. -/
def ignoredRanges : List (Nat × Nat) :=
  [(0xAD, 0xAD), (0x34F, 0x34F), (0x115F, 0x1160), (0x17B4, 0x17B5), (0x180B, 0x180F),
   (0x200B, 0x200B), (0x2060, 0x2064), (0x206A, 0x206F), (0x3164, 0x3164), (0xFE00, 0xFE0F),
   (0xFEFF, 0xFEFF), (0xFFA0, 0xFFA0), (0x1BCA0, 0x1BCA3), (0x1D173, 0x1D17A),
   (0xE0100, 0xE01EF)]

/-- Characters outside of ASCII that no name may have: controls, blanks, private ones, and those
that are a blank or a mark of URLs in another form. -/
def refusedRanges : List (Nat × Nat) :=
  [(0x80, 0xA0), (0xA8, 0xA8), (0xAF, 0xAF), (0xB4, 0xB4), (0xB8, 0xB8), (0x2D8, 0x2DD),
   (0x37A, 0x37A), (0x384, 0x385), (0x600, 0x605), (0x61C, 0x61C), (0x6DD, 0x6DD),
   (0x70F, 0x70F), (0x890, 0x891), (0x8E2, 0x8E2), (0x1680, 0x1680), (0x1FBD, 0x1FBD),
   (0x1FBF, 0x1FC1), (0x1FCD, 0x1FCF), (0x1FDD, 0x1FDF), (0x1FED, 0x1FEE), (0x1FFD, 0x200A),
   (0x200C, 0x200F), (0x2017, 0x2017), (0x2024, 0x2026), (0x2028, 0x202F), (0x203E, 0x203E),
   (0x2047, 0x2049), (0x205F, 0x205F), (0x2066, 0x2069), (0x2100, 0x2101), (0x2105, 0x2106),
   (0x2488, 0x249B), (0x2A74, 0x2A74), (0x2FF0, 0x3000), (0x309B, 0x309C), (0x33C2, 0x33C2),
   (0x33C7, 0x33C7), (0x33D8, 0x33D8), (0xE000, 0xF8FF), (0xFC5E, 0xFC63), (0xFDD0, 0xFDEF),
   (0xFDFA, 0xFDFB), (0xFE12, 0xFE13), (0xFE16, 0xFE16), (0xFE19, 0xFE19), (0xFE30, 0xFE30),
   (0xFE47, 0xFE4C), (0xFE52, 0xFE52), (0xFE55, 0xFE56), (0xFE5F, 0xFE5F), (0xFE64, 0xFE65),
   (0xFE68, 0xFE68), (0xFE6A, 0xFE70), (0xFE72, 0xFE72), (0xFE74, 0xFE76), (0xFE78, 0xFE78),
   (0xFE7A, 0xFE7A), (0xFE7C, 0xFE7C), (0xFE7E, 0xFE7E), (0xFFE3, 0xFFE3), (0xFFF9, 0xFFFF),
   (0x110BD, 0x110BD), (0x110CD, 0x110CD), (0x13430, 0x13438), (0x1F100, 0x1F100),
   (0xE0001, 0xE007F), (0xF0000, 0x10FFFF)]

/-- Marks that are put on the character before them, so that no label begins with one. -/
def markRanges : List (Nat × Nat) :=
  [(0x300, 0x36F), (0x483, 0x489), (0x1AB0, 0x1AFF), (0x1DC0, 0x1DFF), (0x20D0, 0x20FF),
   (0xFE20, 0xFE2F)]

/-- Capital letters outside of ASCII, with the distance to their small letters. -/
def capitalRanges : List (Nat × Nat × Nat) :=
  [(0xC0, 0xD6, 32), (0xD8, 0xDE, 32), (0x391, 0x3A1, 32), (0x3A3, 0x3AB, 32), (0x400, 0x40F, 80),
   (0x410, 0x42F, 32)]

/-- The small letter of a capital letter; other characters stay. -/
def small (c : Char) : Char :=
  match capitalRanges.find? fun range => range.1 ≤ c.toNat && c.toNat ≤ range.2.1 with
  | some (_, _, distance) => Char.ofNat (c.toNat + distance)
  | none => c.toLower

/-- The plain form of a wide character of ASCII or of a full stop of another script. -/
def plain (c : Char) : Char :=
  if 0xFF01 ≤ c.toNat ∧ c.toNat ≤ 0xFF5E then Char.ofNat (c.toNat - 0xFEE0)
  else if c = '\u3002' ∨ c = '\uFF61' then '.'
  else c

/-- What a character stands for in a name; none where it has no place in one. -/
def fold (c : Char) : Option (List Char) :=
  if within ignoredRanges c then some []
  else if within refusedRanges c then none
  else some [small (plain c)]

/-- Characters of ASCII that no name may have. -/
def isForbidden (c : Char) : Bool :=
  c ≤ ' ' || c == '\x7f' ||
    ['%', '#', '/', ':', '<', '>', '?', '@', '[', '\\', ']', '^', '|'].contains c

/-- Whether a character belongs to ASCII. -/
def isAscii (c : Char) : Bool :=
  c.toNat < 0x80

/-- Whether a label begins with a mark. -/
def beginsWithMark (label : List Char) : Bool :=
  label.head?.any (within markRanges)

/-- Whether a text that a label stands for is in its settled form, and needs to be written that
way. -/
def isSettled (text : List Char) : Bool :=
  !text.all isAscii && text.all (fun c => fold c == some [c]) && !beginsWithMark text

/-- Whether a label may stand in a name. -/
def isLabel (label : List Char) : Bool :=
  match label with
  | 'x' :: 'n' :: '-' :: '-' :: code =>
    code.all isAscii && (Punycode.decode? code).any isSettled
  | label => !beginsWithMark label

/-- The labels of a name, with each character folded; none if it is not a name. -/
def labels? (cs : List Char) : Option (List (List Char)) := do
  let folded := (← cs.mapM fold).flatten
  let labels := Text.splitAt '.' folded
  if !folded.any isForbidden && labels.all isLabel then some labels else none

theorem fold_of_isSmall {c : Char} (h : 'a' ≤ c ∧ c ≤ 'z') : fold c = some [c] := by
  have hbound : 97 ≤ c.toNat ∧ c.toNat ≤ 122 := h
  have hsmall : ∀ n, n < 26 → fold (Char.ofNat (97 + n)) = some [Char.ofNat (97 + n)] := by
    decide
  have hc : c = Char.ofNat (97 + (c.toNat - 97)) := by
    rw [show 97 + (c.toNat - 97) = c.toNat by omega, Char.ofNat_toNat]
  rw [hc]
  exact hsmall _ (by omega)

end TypedSql.Url.Domain
