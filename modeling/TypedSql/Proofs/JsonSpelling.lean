/-
Spellings of JSON documents, and the reader against them.

A document has many spellings (`Spelled`): there may be white space between its parts, and a
character of a string may stand for itself, behind a backslash, or as one or two code units in
digits of base 16. The reader takes each of them for the document.

* `exists_pieces` — a spelled string is read as its characters;
* `reads_of_spelled` — a spelled part of a document is read as that part, whatever stands behind it;
* `read?_of_spells` — so a text that spells a document is read as that document, and
  (`Spells.unique`) spells no other one.
-/
import Mathlib
import TypedSql.Json.Reader
import TypedSql.Proofs.Runs

namespace TypedSql.Json

/-! ### White space in front -/

theorem skip_skip (cs : List Char) : skip (skip cs) = skip cs :=
  List.dropWhile_idempotent _ cs

theorem value?_skip (fuel : Nat) (cs : List Char) : value? fuel (skip cs) = value? fuel cs := by
  cases fuel with
  | zero => rfl
  | succ fuel => rw [value?, value?, skip_skip]

theorem items?_skip (fuel : Nat) (cs : List Char) : items? fuel (skip cs) = items? fuel cs := by
  cases fuel with
  | zero => rfl
  | succ fuel => rw [items?, items?, value?_skip]

theorem entries?_skip (fuel : Nat) (cs : List Char) :
    entries? fuel (skip cs) = entries? fuel cs := by
  cases fuel with
  | zero => rfl
  | succ fuel => rw [entries?, entries?, skip_skip]

/-! ### Spellings -/

/-- A digit of base 16, in either case. -/
def HexDigit (value : Nat) (c : Char) : Prop :=
  value < 16 ∧ (c = Nat.digitChar value ∨ c = (Nat.digitChar value).toUpper)

/-- A code unit behind a backslash: four digits of base 16. -/
inductive UnitEscape : Nat → List Char → Prop
  | intro {w x y z : Nat} {a b c d : Char} (first : HexDigit w a) (second : HexDigit x b)
      (third : HexDigit y c) (fourth : HexDigit z d) :
      UnitEscape (4096 * w + 256 * x + 16 * y + z) ['\\', 'u', a, b, c, d]

/-- The letters that stand for a character behind a backslash. -/
def letterEscapes : List (Char × Char) :=
  [('"', '"'), ('\\', '\\'), ('/', '/'), ('b', '\x08'), ('f', '\x0c'), ('n', '\n'), ('r', '\r'),
    ('t', '\t')]

/-- The spellings of a character in a string. -/
inductive SpellsChar : Char → List Char → Prop
  /-- The character itself, unless it ends the string, begins an escape or is a control character. -/
  | plain {c : Char} (quotation : c ≠ '"') (backslash : c ≠ '\\') (visible : 0x20 ≤ c.toNat) :
      SpellsChar c [c]
  | letter {letter c : Char} (listed : (letter, c) ∈ letterEscapes) : SpellsChar c ['\\', letter]
  | unit {c : Char} {cs : List Char} (escape : UnitEscape c.toNat cs) : SpellsChar c cs
  /-- A surrogate pair. -/
  | pair {c : Char} {high low : Nat} {first second : List Char} (isHigh : isHigh high = true)
      (isLow : isLow low = true)
      (code : c.toNat = 0x10000 + 0x400 * (high - 0xD800) + (low - 0xDC00))
      (before : UnitEscape high first) (behind : UnitEscape low second) :
      SpellsChar c (first ++ second)

/-- The spellings of what stands in a string. -/
inductive SpellsText : List Char → List Char → Prop
  | nil : SpellsText [] []
  | cons {c : Char} {text cs rest : List Char} (first : SpellsChar c cs)
      (behind : SpellsText text rest) : SpellsText (c :: text) (cs ++ rest)

/-- White space between the parts of a document. -/
def Gap (cs : List Char) : Prop :=
  ∀ c ∈ cs, isSpace c = true

/-- The digits of a whole number, which begin with no zero unless that is all. -/
structure WholeDigits (digits : List Char) : Prop where
  some : digits ≠ []
  each : ∀ c ∈ digits, c.isDigit = true
  leading : digits = ['0'] ∨ '0' ∉ digits.head?

/-- A part of a document: a document, an entry of an object, or what stands behind the opening
bracket of an array or object that is not empty. -/
inductive Form where
  | document (j : Json)
  | entry (key : String) (j : Json)
  | items (items : List Json)
  | entries (entries : List (Option String × Json))

/-- The spellings of a part of a document whose numbers are whole. Those of items and entries have
their closing bracket. -/
inductive Spelled : Form → List Char → Prop
  | null : Spelled (.document .null) ['n', 'u', 'l', 'l']
  | true : Spelled (.document (.bool true)) ['t', 'r', 'u', 'e']
  | false : Spelled (.document (.bool false)) ['f', 'a', 'l', 's', 'e']
  | number {digits : List Char} (negative : Bool) (whole : WholeDigits digits) :
      Spelled (.document (.number ⟨negative, digits, true⟩))
        ((if negative then ['-'] else []) ++ digits)
  | string {s : String} {cs : List Char} (text : SpellsText s.toList cs) :
      Spelled (.document (.string s)) ('"' :: (cs ++ ['"']))
  | emptyArray {gap : List Char} (between : Gap gap) :
      Spelled (.document (.array [])) ('[' :: (gap ++ [']']))
  | array {items : List Json} {cs : List Char} (behind : Spelled (.items items) cs) :
      Spelled (.document (.array items)) ('[' :: cs)
  | emptyObject {gap : List Char} (between : Gap gap) :
      Spelled (.document (.object [])) ('\x7b' :: (gap ++ ['\x7d']))
  | object {entries : List (Option String × Json)} {cs : List Char}
      (behind : Spelled (.entries entries) cs) :
      Spelled (.document (.object entries)) ('\x7b' :: cs)
  | entry {key : String} {j : Json} {keyText gap gap' cs : List Char}
      (text : SpellsText key.toList keyText) (before : Gap gap) (behind : Gap gap')
      (value : Spelled (.document j) cs) :
      Spelled (.entry key j) ('"' :: (keyText ++ '"' :: (gap ++ ':' :: (gap' ++ cs))))
  | lastItem {j : Json} {cs gap gap' : List Char} (before : Gap gap)
      (item : Spelled (.document j) cs) (behind : Gap gap') :
      Spelled (.items [j]) (gap ++ (cs ++ (gap' ++ [']'])))
  | nextItem {j : Json} {items : List Json} {cs gap gap' rest : List Char} (before : Gap gap)
      (item : Spelled (.document j) cs) (behind : Gap gap') (more : Spelled (.items items) rest) :
      Spelled (.items (j :: items)) (gap ++ (cs ++ (gap' ++ ',' :: rest)))
  | lastEntry {key : String} {j : Json} {cs gap gap' : List Char} (before : Gap gap)
      (first : Spelled (.entry key j) cs) (behind : Gap gap') :
      Spelled (.entries [(key, j)]) (gap ++ (cs ++ (gap' ++ ['\x7d'])))
  | nextEntry {key : String} {j : Json} {entries : List (Option String × Json)}
      {cs gap gap' rest : List Char} (before : Gap gap) (first : Spelled (.entry key j) cs)
      (behind : Gap gap') (more : Spelled (.entries entries) rest) :
      Spelled (.entries ((key, j) :: entries)) (gap ++ (cs ++ (gap' ++ ',' :: rest)))

/-- A text spells a document, with white space around it. -/
def Spells (j : Json) (text : String) : Prop :=
  ∃ before cs after, Gap before ∧ Spelled (.document j) cs ∧ Gap after ∧
    text.toList = before ++ (cs ++ after)

/-! ### Strings -/

theorem hexValue?_of_hexDigit {value : Nat} {c : Char} (h : HexDigit value c) :
    hexValue? c = some value := by
  -- each digit, in either case
  obtain ⟨hvalue, rfl | rfl⟩ := h
  all_goals
    interval_cases value <;> rfl

theorem pieces?_unitEscape {code : Nat} {cs : List Char} (h : UnitEscape code cs)
    (rest : List Char) :
    pieces? (cs ++ rest) = (pieces? rest).map fun found => (.unit code :: found.1, found.2) := by
  obtain ⟨first, second, third, fourth⟩ := h
  simp only [List.cons_append, List.nil_append, pieces?, hexValue4?, hexValue?_of_hexDigit first,
    hexValue?_of_hexDigit second, hexValue?_of_hexDigit third, hexValue?_of_hexDigit fourth]
  cases pieces? rest <;> rfl

/-- A code unit that is no half of a pair stands for a character. -/
theorem pieceText?_unit {code : Nat} (high : isHigh code = false) (low : isLow code = false)
    (more : List Piece) :
    pieceText? (.unit code :: more) = (pieceText? more).map (Char.ofNat code :: ·) := by
  cases more with
  | nil => simp [pieceText?, high, low]
  | cons piece more => cases piece <;> simp [pieceText?, high, low]

/-- The code of a character is no half of a pair. -/
theorem not_surrogate (c : Char) : isHigh c.toNat = false ∧ isLow c.toNat = false := by
  have hvalid := c.valid
  have hcode : c.toNat = c.val.toNat := rfl
  simp only [isHigh, isLow, Bool.and_eq_false_iff, decide_eq_false_iff_not]
  rw [UInt32.isValidChar, Nat.isValidChar] at hvalid
  omega

/-- A spelled character is read as pieces that make up that character. -/
theorem exists_pieces_char {c : Char} {cs : List Char} (h : SpellsChar c cs) :
    ∃ pieces, (∀ rest, pieces? (cs ++ rest) =
        (pieces? rest).map fun found => (pieces ++ found.1, found.2)) ∧
      ∀ more, pieceText? (pieces ++ more) = (pieceText? more).map (c :: ·) := by
  cases h with
  | plain quotation backslash visible =>
    refine ⟨[.char c], fun rest => ?_, fun more => by simp [pieceText?]⟩
    have hvisible : ¬ c.toNat < 0x20 := by omega
    simp [pieces?, backslash, hvisible]
    cases pieces? rest <;> rfl
  | @letter letter c listed =>
    have hall : ∀ p ∈ letterEscapes, p.1 ≠ 'u' ∧ escaped? p.1 = some p.2 := by decide
    obtain ⟨hletter, hescaped⟩ := hall _ listed
    refine ⟨[.char c], fun rest => ?_, fun more => by simp [pieceText?]⟩
    simp [pieces?, hletter, hescaped]
    cases pieces? rest <;> rfl
  | unit escape =>
    refine ⟨[.unit c.toNat], fun rest => pieces?_unitEscape escape rest, fun more => ?_⟩
    have h := pieceText?_unit (not_surrogate c).1 (not_surrogate c).2 more
    rwa [Char.ofNat_toNat] at h
  | @pair _ high low first second hhigh hlow code before behind =>
    refine ⟨[.unit high, .unit low], fun rest => ?_, fun more => ?_⟩
    · rw [List.append_assoc, pieces?_unitEscape before, pieces?_unitEscape behind]
      cases pieces? rest <;> rfl
    · have hchar : pairChar high low = c := by rw [pairChar, ← code, Char.ofNat_toNat]
      simp [pieceText?, hhigh, hlow, hchar]

/-- The inside of a spelled string is read as its characters. -/
theorem exists_pieces {text cs : List Char} (h : SpellsText text cs) (rest : List Char) :
    ∃ pieces, pieces? (cs ++ '"' :: rest) = some (pieces, rest) ∧
      pieceText? pieces = some text := by
  induction h with
  | nil => exact ⟨[], rfl, rfl⟩
  | cons first behind ih =>
    obtain ⟨pieces, hread, htext⟩ := exists_pieces_char first
    obtain ⟨more, hread', htext'⟩ := ih
    refine ⟨pieces ++ more, ?_, ?_⟩
    · rw [List.append_assoc, hread, hread']
      rfl
    · rw [htext, htext']
      rfl

theorem string?_of_spellsText {s : String} {cs : List Char} (h : SpellsText s.toList cs)
    (rest : List Char) : string? (cs ++ '"' :: rest) = some (some s, rest) := by
  obtain ⟨pieces, hread, htext⟩ := exists_pieces h rest
  simp [string?, hread, htext]

/-! ### Numbers -/

/-- What may stand behind a document: the end, white space, a comma or a closing bracket. -/
def Ends (rest : List Char) : Prop :=
  ∀ c ∈ rest.head?, isSpace c = true ∨ c = ',' ∨ c = ']' ∨ c = '\x7d'

theorem Ends.ne {c : Char} {rest : List Char} (h : Ends (c :: rest)) :
    c.isDigit = false ∧ c ≠ '.' ∧ c ≠ 'e' ∧ c ≠ 'E' := by
  have hc := h c rfl
  simp only [isSpace, Bool.or_eq_true, beq_iff_eq] at hc
  obtain (((rfl | rfl) | rfl) | rfl) | rfl | rfl | rfl := hc
  all_goals decide

theorem digits?_append {digits rest : List Char} (h : WholeDigits digits) (ends : Ends rest) :
    digits? (digits ++ rest) = some (digits, rest) := by
  have hrest : ∀ c ∈ rest.head?, c.isDigit = false := by
    cases rest with
    | nil => simp
    | cons c rest => simpa using ends.ne.1
  obtain ⟨htake, hdrop⟩ := takeWhile_run h.each hrest
  simp [digits?, htake, hdrop, h.some]

theorem whole?_append {digits rest : List Char} (h : WholeDigits digits) (ends : Ends rest) :
    whole? (digits ++ rest) = some (digits, rest) := by
  have hdigits := digits?_append h ends
  obtain ⟨hsome, -, rfl | hleading⟩ := h
  · -- behind a zero there may be no digit
    cases rest with
    | nil => rfl
    | cons c rest => simp [whole?, ends.ne.1]
  · cases digits with
    | nil => exact absurd rfl hsome
    | cons d digits =>
      have hd : d ≠ '0' := fun heq => hleading (congrArg some heq)
      rw [List.cons_append, whole?.eq_2 _ fun _ _ heq => absurd (List.cons.inj heq).1 hd]
      exact hdigits

theorem number?_append {digits rest : List Char} (negative : Bool) (h : WholeDigits digits)
    (ends : Ends rest) : number? ((if negative then ['-'] else []) ++ digits ++ rest) =
      some (.number ⟨negative, digits, true⟩, rest) := by
  have hwhole := whole?_append h ends
  -- neither a fraction nor an exponent stands behind the digits
  have hfraction : fraction? rest = some (false, rest) := by
    cases rest with
    | nil => rfl
    | cons c rest => simp [fraction?, ends.ne.2.1]
  have hexponent : exponent? rest = some (false, rest) := by
    cases rest with
    | nil => rfl
    | cons c rest => simp [exponent?, ends.ne.2.2]
  cases negative with
  | true => simp [number?, hwhole, hfraction, hexponent]
  | false =>
    obtain ⟨d, more, rfl⟩ := List.exists_cons_of_ne_nil h.some
    have hd : d ≠ '-' := by
      rintro rfl
      exact absurd (h.each '-' List.mem_cons_self) (by decide)
    rw [List.cons_append] at hwhole
    simp [number?, hd, hwhole, hfraction, hexponent]

/-! ### Documents -/

theorem skip_append {gap rest : List Char} (h : Gap gap) : skip (gap ++ rest) = skip rest :=
  List.dropWhile_append_of_pos h

theorem skip_cons {c : Char} {rest : List Char} (h : isSpace c = false) :
    skip (c :: rest) = c :: rest := by
  simp [skip, h]

theorem value?_array {fuel : Nat} {cs tail : List Char} {c : Char} (hskip : skip cs = c :: tail)
    (hc : c ≠ ']') : value? (fuel + 1) ('[' :: cs) =
      (items? fuel cs).map fun found => (.array found.1, found.2) := by
  rw [value?, skip_cons (by decide), ← items?_skip]
  simp [hskip, hc]

theorem value?_object {fuel : Nat} {cs tail : List Char} {c : Char} (hskip : skip cs = c :: tail)
    (hc : c ≠ '\x7d') : value? (fuel + 1) ('\x7b' :: cs) =
      (entries? fuel cs).map fun found => (.object found.1, found.2) := by
  rw [value?, skip_cons (by decide), ← entries?_skip]
  simp [hskip, hc]

theorem value?_string {fuel : Nat} {s : String} {text : List Char} (h : SpellsText s.toList text)
    (rest : List Char) :
    value? (fuel + 1) ('"' :: (text ++ '"' :: rest)) = some (.string s, rest) := by
  have hstring := string?_of_spellsText h rest
  rw [value?, skip_cons (by decide)]
  simp only [hstring]
  rfl

theorem value?_emptyArray {fuel : Nat} {gap : List Char} (between : Gap gap) (rest : List Char) :
    value? (fuel + 1) ('[' :: (gap ++ ']' :: rest)) = some (.array [], rest) := by
  rw [value?, skip_cons (by decide)]
  simp only [skip_append between, skip_cons (show isSpace ']' = false by decide)]

theorem value?_emptyObject {fuel : Nat} {gap : List Char} (between : Gap gap)
    (rest : List Char) :
    value? (fuel + 1) ('\x7b' :: (gap ++ '\x7d' :: rest)) = some (.object [], rest) := by
  rw [value?, skip_cons (by decide)]
  simp only [skip_append between, skip_cons (show isSpace '\x7d' = false by decide)]

/-- A numeral begins with a digit or a sign. -/
theorem exists_numeral_head {digits : List Char} (negative : Bool) (h : WholeDigits digits) :
    ∃ c tail, (if negative then ['-'] else []) ++ digits = c :: tail ∧
      (c.isDigit = true ∨ c = '-') := by
  cases negative with
  | true => exact ⟨'-', digits, rfl, .inr rfl⟩
  | false =>
    obtain ⟨d, more, rfl⟩ := List.exists_cons_of_ne_nil h.some
    exact ⟨d, more, rfl, .inl (h.each d List.mem_cons_self)⟩

theorem numeral_head_ne {c d : Char} (h : c.isDigit = true ∨ c = '-')
    (hd : d.isDigit = false ∧ d ≠ '-') : c ≠ d := by
  rintro rfl
  obtain h | h := h
  · exact absurd (h.symm.trans hd.1) (by decide)
  · exact hd.2 h

theorem not_isSpace_numeral_head {c : Char} (h : c.isDigit = true ∨ c = '-') :
    isSpace c = false := by
  simp only [isSpace, Bool.or_eq_false_iff, beq_eq_false_iff_ne]
  refine ⟨⟨⟨?_, ?_⟩, ?_⟩, ?_⟩
  all_goals exact numeral_head_ne h (by decide)

/-- A document that begins like a numeral is read as a number. -/
theorem value?_number {fuel : Nat} {cs : List Char} {c : Char}
    (h : c.isDigit = true ∨ c = '-') : value? (fuel + 1) (c :: cs) = number? (c :: cs) := by
  -- the reader goes by the first character, and no other document begins like a numeral
  rw [value?, skip_cons (not_isSpace_numeral_head h)]
  split
  case h_7 => rfl
  all_goals
    rename_i heq
    exact absurd (List.cons.inj heq).1 (numeral_head_ne h (by decide))

theorem exists_head {j : Json} {cs : List Char} (h : Spelled (.document j) cs) :
    ∃ c tail, cs = c :: tail ∧ isSpace c = false ∧ c ≠ ']' := by
  cases h with
  | number negative whole =>
    obtain ⟨c, tail, heq, hc⟩ := exists_numeral_head negative whole
    exact ⟨c, tail, heq, not_isSpace_numeral_head hc, numeral_head_ne hc (by decide)⟩
  | null | true | false | string | emptyArray | array | emptyObject | object =>
    exact ⟨_, _, rfl, by decide, by decide⟩

/-- Items do not begin with a closing bracket. -/
theorem exists_skip_items {items : List Json} {cs : List Char} (h : Spelled (.items items) cs)
    (rest : List Char) : ∃ c tail, skip (cs ++ rest) = c :: tail ∧ c ≠ ']' := by
  cases h with
  | lastItem before item behind | nextItem before item behind more =>
    obtain ⟨c, tail, rfl, hspace, hc⟩ := exists_head item
    simp only [List.append_assoc, List.cons_append]
    rw [skip_append before, skip_cons hspace]
    exact ⟨c, _, rfl, hc⟩

/-- Entries begin with the quotation mark of a key. -/
theorem exists_skip_entries {entries : List (Option String × Json)} {cs : List Char}
    (h : Spelled (.entries entries) cs) (rest : List Char) :
    ∃ tail, skip (cs ++ rest) = '"' :: tail := by
  cases h with
  | lastEntry before first behind | nextEntry before first behind more =>
    cases first
    simp only [List.append_assoc, List.cons_append]
    rw [skip_append before, skip_cons (by decide)]
    exact ⟨_, rfl⟩

/-- What the reader makes of a part of a document, with a bound on its recursion. -/
def Reads (bound : Nat) : Form → List Char → List Char → Prop
  | .document j, cs, rest => Ends rest → value? bound cs = some (j, rest)
  | .entry key j, cs, rest => Ends rest → ∃ inside middle behind, cs = '"' :: inside ∧
      string? inside = some (some key, middle) ∧ skip middle = ':' :: behind ∧
      value? bound behind = some (j, rest)
  | .items items, cs, rest => items? bound cs = some (items, rest)
  | .entries entries, cs, rest => entries? bound cs = some (entries, rest)

theorem ends_gap {gap rest : List Char} {c : Char} (h : Gap gap)
    (hc : c = ',' ∨ c = ']' ∨ c = '\x7d') : Ends (gap ++ c :: rest) := by
  cases gap with
  | nil =>
    rintro d ⟨⟩
    exact .inr hc
  | cons d gap =>
    rintro e ⟨⟩
    exact .inl (h d List.mem_cons_self)

/-! ### Members -/

section Members

variable {j : Json} {cs gap gap' more rest : List Char} {bound : Nat}

theorem items?_last (before : Gap gap) (behind : Gap gap')
    (item : value? bound cs = some (j, gap' ++ ']' :: rest)) :
    items? (bound + 1) (gap ++ cs) = some ([j], rest) := by
  rw [← items?_skip, skip_append before, items?_skip, items?, item]
  simp [skip_append behind, skip_cons (show isSpace ']' = false by decide)]

theorem items?_next {items : List Json} (before : Gap gap) (behind : Gap gap')
    (item : value? bound cs = some (j, gap' ++ ',' :: more))
    (following : items? bound more = some (items, rest)) :
    items? (bound + 1) (gap ++ cs) = some (j :: items, rest) := by
  rw [← items?_skip, skip_append before, items?_skip, items?, item]
  simp [skip_append behind, skip_cons (show isSpace ',' = false by decide), following]

variable {key : String} {inside middle document : List Char}

theorem entries?_last (before : Gap gap) (behind : Gap gap')
    (hkey : string? inside = some (some key, middle)) (hcolon : skip middle = ':' :: document)
    (hvalue : value? bound document = some (j, gap' ++ '\x7d' :: rest)) :
    entries? (bound + 1) (gap ++ '"' :: inside) = some ([(some key, j)], rest) := by
  rw [← entries?_skip, skip_append before, entries?_skip, entries?, skip_cons (by decide)]
  simp [hkey, hcolon, hvalue, skip_append behind,
    skip_cons (show isSpace '\x7d' = false by decide)]

theorem entries?_next {entries : List (Option String × Json)} (before : Gap gap)
    (behind : Gap gap') (hkey : string? inside = some (some key, middle))
    (hcolon : skip middle = ':' :: document)
    (hvalue : value? bound document = some (j, gap' ++ ',' :: more))
    (following : entries? bound more = some (entries, rest)) :
    entries? (bound + 1) (gap ++ '"' :: inside) = some ((some key, j) :: entries, rest) := by
  rw [← entries?_skip, skip_append before, entries?_skip, entries?, skip_cons (by decide)]
  simp [hkey, hcolon, hvalue, skip_append behind,
    skip_cons (show isSpace ',' = false by decide), following]

end Members

/-! ### Reading what is spelled -/

/-- Every spelling of a part of a document is read as that part, if the bound is above its length. -/
theorem reads_of_spelled {form : Form} {cs : List Char} (h : Spelled form cs) {bound : Nat}
    (hbound : cs.length ≤ bound) (rest : List Char) : Reads (bound + 1) form (cs ++ rest) rest := by
  induction h generalizing bound rest with
  | null | true | false =>
    intro _
    rfl
  | number negative whole =>
    intro ends
    have hnumber := number?_append negative whole ends
    obtain ⟨c, tail, heq, hc⟩ := exists_numeral_head negative whole
    rw [heq] at hnumber ⊢
    rw [List.cons_append] at hnumber ⊢
    rw [value?_number hc, hnumber]
  | string text =>
    intro _
    rw [List.cons_append, List.append_assoc, List.singleton_append]
    exact value?_string text rest
  | emptyArray between =>
    intro _
    rw [List.cons_append, List.append_assoc, List.singleton_append]
    exact value?_emptyArray between rest
  | @array items cs behind ih =>
    intro _
    -- the bracket pays for the step from the array to its items
    obtain ⟨c, tail, hskip, hc⟩ := exists_skip_items behind rest
    obtain ⟨bound, rfl⟩ := Nat.exists_eq_add_one_of_ne_zero (Nat.ne_zero_of_lt hbound)
    have hitems : items? (bound + 1) (cs ++ rest) = some (items, rest) :=
      ih (Nat.le_of_succ_le_succ hbound) rest
    rw [List.cons_append, value?_array hskip hc, hitems]
    rfl
  | emptyObject between =>
    intro _
    rw [List.cons_append, List.append_assoc, List.singleton_append]
    exact value?_emptyObject between rest
  | @object entries cs behind ih =>
    intro _
    obtain ⟨tail, hskip⟩ := exists_skip_entries behind rest
    obtain ⟨bound, rfl⟩ := Nat.exists_eq_add_one_of_ne_zero (Nat.ne_zero_of_lt hbound)
    have hentries : entries? (bound + 1) (cs ++ rest) = some (entries, rest) :=
      ih (Nat.le_of_succ_le_succ hbound) rest
    rw [List.cons_append, value?_object hskip (by decide), hentries]
    rfl
  | @entry key j keyText gap gap' cs text before behind value ih =>
    intro ends
    simp only [List.length_cons, List.length_append] at hbound
    have hvalue : value? (bound + 1) (cs ++ rest) = some (j, rest) := ih (by omega) rest ends
    refine ⟨keyText ++ '"' :: (gap ++ ':' :: (gap' ++ (cs ++ rest))), _, gap' ++ (cs ++ rest),
      by simp, string?_of_spellsText text _, ?_, ?_⟩
    · rw [skip_append before, skip_cons (by decide)]
    · rw [← value?_skip, skip_append behind, value?_skip, hvalue]
  -- in the cases that are left the bound is positive, since the part has a mark of its own
  | @lastItem j cs gap gap' before item behind ih =>
    simp only [List.length_append, List.length_singleton] at hbound
    obtain ⟨bound, rfl⟩ := Nat.exists_eq_add_one_of_ne_zero (Nat.ne_zero_of_lt hbound)
    have hitem : value? (bound + 1) (cs ++ (gap' ++ ']' :: rest)) = some (j, gap' ++ ']' :: rest) :=
      ih (by omega) _ (ends_gap behind (by simp))
    have hread := items?_last before behind hitem
    simpa [Reads] using hread
  | @nextItem j items cs gap gap' more before item behind following ih ih' =>
    simp only [List.length_append, List.length_cons] at hbound
    obtain ⟨bound, rfl⟩ := Nat.exists_eq_add_one_of_ne_zero (Nat.ne_zero_of_lt hbound)
    have hitem : value? (bound + 1) (cs ++ (gap' ++ ',' :: (more ++ rest))) =
        some (j, gap' ++ ',' :: (more ++ rest)) := ih (by omega) _ (ends_gap behind (by simp))
    have hmore : items? (bound + 1) (more ++ rest) = some (items, rest) := ih' (by omega) rest
    have hread := items?_next before behind hitem hmore
    simpa [Reads] using hread
  | @lastEntry key j cs gap gap' before first behind ih =>
    simp only [List.length_append, List.length_singleton] at hbound
    obtain ⟨bound, rfl⟩ := Nat.exists_eq_add_one_of_ne_zero (Nat.ne_zero_of_lt hbound)
    have hfirst : Reads (bound + 1) (.entry key j) (cs ++ (gap' ++ '\x7d' :: rest)) _ :=
      ih (by omega) _
    obtain ⟨inside, middle, document, hcs, hkey, hcolon, hvalue⟩ :=
      hfirst (ends_gap behind (by simp))
    have hread := entries?_last before behind hkey hcolon hvalue
    rw [← hcs] at hread
    simpa [Reads] using hread
  | @nextEntry key j entries cs gap gap' more before first behind following ih ih' =>
    simp only [List.length_append, List.length_cons] at hbound
    obtain ⟨bound, rfl⟩ := Nat.exists_eq_add_one_of_ne_zero (Nat.ne_zero_of_lt hbound)
    have hfirst : Reads (bound + 1) (.entry key j) (cs ++ (gap' ++ ',' :: (more ++ rest))) _ :=
      ih (by omega) _
    obtain ⟨inside, middle, document, hcs, hkey, hcolon, hvalue⟩ :=
      hfirst (ends_gap behind (by simp))
    have hmore : entries? (bound + 1) (more ++ rest) = some (entries, rest) :=
      ih' (by omega) rest
    have hread := entries?_next before behind hkey hcolon hvalue hmore
    rw [← hcs] at hread
    simpa [Reads] using hread

/-- A text that spells a document is read as that document. -/
theorem read?_of_spells {j : Json} {text : String} (h : Spells j text) : read? text = some j := by
  obtain ⟨before, cs, after, hbefore, hspelled, hafter, htext⟩ := h
  have hends : Ends after := by
    intro c hc
    exact .inl (hafter c (List.mem_of_mem_head? hc))
  -- the reader's bound is the length of the whole text, white space included
  have hread : value? (text.toList.length + 1) (cs ++ after) = some (j, after) := by
    refine reads_of_spelled hspelled ?_ after hends
    rw [htext, List.length_append, List.length_append]
    omega
  have hskip : skip after = [] := by
    have h : skip (after ++ []) = [] := skip_append hafter
    rwa [List.append_nil] at h
  have hdocument : value? (text.toList.length + 1) text.toList = some (j, after) := by
    rw [← hread, ← value?_skip _ text.toList, htext, skip_append hbefore, value?_skip]
  simp [read?, hdocument, hskip]

/-- A text spells one document at most. -/
theorem Spells.unique {j j' : Json} {text : String} (h : Spells j text) (h' : Spells j' text) :
    j = j' :=
  Option.some.inj ((read?_of_spells h).symm.trans (read?_of_spells h'))

end TypedSql.Json
