/-
Scanning conditions: from characters to pieces.

A piece ends where white space, a parenthesis, a comma or a semicolon begins (`Ends`). Comments,
doubled quotation marks and escapes are not read at all.

* `Scans` — lexemes that are scanned as given pieces wherever what follows them begins anew, with
  one lemma for each lexeme (`scans_word`, `scans_name`, `scans_number`, …) and each form that
  conditions put lexemes together in (`Scans.parenthesized`, `Scans.binary`, `scans_call`, …).
-/
import TypedSql.Filter.Condition
import TypedSql.Proofs.Numeral
import TypedSql.Proofs.Phrase
import TypedSql.Proofs.Runs

namespace TypedSql

open Lexeme (word mark placeholder space)

/-- The words with a meaning of their own. -/
def Piece.keywords : List (String × Piece) :=
  [("AND", .operator .and), ("OR", .operator .or), ("NOT", .not), ("IS", .is),
   ("LIKE", .operator .like), ("NULL", .constant none), ("TRUE", .constant (some true)),
   ("FALSE", .constant (some false))]

/-- The piece of a word. Case does not matter, and other words are functions. -/
def Piece.ofWord (word : List Char) : Piece :=
  let name := String.ofList (word.map Char.toUpper)
  (keywords.lookup name).getD (.function name)

namespace Condition

/-! ### The scanner -/

/-- What stands in front of a quotation mark, and behind it. A second mark would not end it. -/
def quoted (quotation : Char) (cs : List Char) : Option (String × List Char) :=
  match cs.dropWhile (· != quotation) with
  | [] => none
  | _ :: rest =>
    if rest.head? = some quotation then none
    else some (String.ofList (cs.takeWhile (· != quotation)), rest)

/-- The part of a numeral behind its point. -/
def fraction : List Char → List Char × List Char
  | '.' :: rest => ('.' :: rest.takeWhile Char.isDigit, rest.dropWhile Char.isDigit)
  | cs => ([], cs)

/-- The exponent of a numeral. -/
def exponent : List Char → List Char × List Char
  | 'e' :: '-' :: rest => ('e' :: '-' :: rest.takeWhile Char.isDigit, rest.dropWhile Char.isDigit)
  | 'e' :: rest => ('e' :: rest.takeWhile Char.isDigit, rest.dropWhile Char.isDigit)
  | cs => ([], cs)

/-- A numeral without a sign. It ends before a character that is part of no name. -/
def numeral (cs : List Char) : Option (String × List Char) :=
  let whole := cs.takeWhile Char.isDigit
  let (fraction, rest) := fraction (cs.dropWhile Char.isDigit)
  let (exponent, rest) := exponent rest
  if rest.head?.any Text.isIdentifierChar then none
  else some (String.ofList (whole ++ fraction ++ exponent), rest)

/-- Punctuation and operators, the longest first. Two hyphens would begin a comment. -/
def punctuation : List Char → Option (Piece × List Char)
  | '(' :: rest => some (.openParen, rest)
  | ')' :: rest => some (.closeParen, rest)
  | ',' :: rest => some (.comma, rest)
  | '-' :: '-' :: _ => none
  | '-' :: rest => some (.minus, rest)
  | '=' :: rest => some (.operator (.compare .eq), rest)
  | '!' :: '=' :: rest => some (.operator (.compare .ne), rest)
  | '<' :: '>' :: rest => some (.operator (.compare .ne), rest)
  | '<' :: '=' :: rest => some (.operator (.compare .le), rest)
  | '<' :: rest => some (.operator (.compare .lt), rest)
  | '>' :: '=' :: rest => some (.operator (.compare .ge), rest)
  | '>' :: rest => some (.operator (.compare .gt), rest)
  | _ => none

/-- The piece that begins with a character, and what stands behind it. -/
def next (c : Char) (rest : List Char) : Option (Piece × List Char) :=
  if c = '\x60' then do
    let (name, rest) ← quoted '\x60' rest
    some (.column name, rest)
  else if c = '"' then do
    let (content, rest) ← quoted '"' rest
    if content.toList.contains '\\' then none else some (.text content, rest)
  else if c = '@' then
    some (.placeholder (String.ofList (rest.takeWhile Text.isIdentifierChar)),
      rest.dropWhile Text.isIdentifierChar)
  else if c.isDigit then do
    let (spelling, rest) ← numeral (c :: rest)
    some (.number spelling, rest)
  else if Text.isIdentifierChar c then
    some (.ofWord (c :: rest.takeWhile Text.isIdentifierChar),
      rest.dropWhile Text.isIdentifierChar)
  else punctuation (c :: rest)

/-- The pieces of a text. -/
def scan : List Char → Option (List Piece)
  | [] => some []
  | c :: rest =>
    if c.isWhitespace then scan rest
    else do
      let (p, ⟨rest, _⟩) ← bounded rest (next c rest)
      let more ← scan rest
      some (p :: more)
termination_by cs => cs.length

/-! ### Single lexemes -/

/-- The characters that end a piece. -/
def enders : List Char :=
  [' ', '\n', '\t', '(', ')', ',', ';']

/-- What follows begins with white space, a parenthesis, a comma or a semicolon, or there is
nothing. -/
def Ends (rest : List Char) : Prop :=
  ∀ c ∈ rest.head?, c ∈ enders

theorem ends_nil : Ends [] :=
  fun c hc => absurd hc (by simp)

theorem ends_cons {c : Char} {rest : List Char} : Ends (c :: rest) ↔ c ∈ enders := by
  simp [Ends]

/-- A kind of character that no end belongs to stops there. -/
theorem Ends.head_not {rest : List Char} (h : Ends rest) {p : Char → Bool}
    (hp : enders.all (!p ·) = true) : ∀ c ∈ rest.head?, p c = false := by
  intro c hc
  simpa using List.all_eq_true.mp hp c (h c hc)

/-- Pieces that characters begin with, white space aside, and the characters behind them. -/
inductive Leads : List Char → List Piece → List Char → Prop
  | nil (cs : List Char) : Leads cs [] cs
  | blank {c : Char} {cs rest : List Char} {ps : List Piece} (white : c.isWhitespace = true)
      (behind : Leads cs ps rest) : Leads (c :: cs) ps rest
  | piece {c : Char} {cs more rest : List Char} {p : Piece} {ps : List Piece}
      (ink : c.isWhitespace = false) (taken : next c cs = some (p, more))
      (shorter : more.length ≤ cs.length) (behind : Leads more ps rest) :
      Leads (c :: cs) (p :: ps) rest

theorem Leads.scan {cs rest : List Char} {ps : List Piece} (h : Leads cs ps rest) :
    scan cs = (scan rest).map (ps ++ ·) := by
  induction h with
  | nil cs => simp
  | blank white _ ih => rw [scan.eq_2, if_pos white, ih]
  | piece ink taken shorter _ ih =>
    rw [scan.eq_2, if_neg (by simp [ink]), taken, bounded_some shorter, Option.bind_eq_bind,
      Option.bind_some]
    dsimp only
    rw [ih]
    cases Condition.scan _ <;> rfl

theorem Leads.append {cs more rest : List Char} {ps qs : List Piece} (h : Leads cs ps more)
    (h' : Leads more qs rest) : Leads cs (ps ++ qs) rest := by
  induction h with
  | nil cs => exact h'
  | blank white _ ih => exact .blank white (ih h')
  | piece ink taken shorter _ ih => exact .piece ink taken shorter (ih h')

/-- Lexemes are scanned as pieces, wherever what follows begins anew. -/
def Scans (ls : List Lexeme) (ps : List Piece) : Prop :=
  ∀ rest, Ends rest → Leads ((Lexeme.text ls).toList ++ rest) ps rest

theorem toList_text_singleton (l : Lexeme) : (Lexeme.text [l]).toList = l.spell.toList := by
  rw [Lexeme.toList_text_cons, Lexeme.text_nil, String.toList_empty, List.append_nil]

/-- Characters that are taken as one piece, wherever what follows begins anew. -/
def Takes (cs : List Char) (p : Piece) : Prop :=
  ∃ c more, cs = c :: more ∧ c.isWhitespace = false ∧
    ∀ rest, Ends rest → next c (more ++ rest) = some (p, rest)

theorem Takes.leads {cs : List Char} {p : Piece} (h : Takes cs p) {rest : List Char}
    (hrest : Ends rest) : Leads (cs ++ rest) [p] rest := by
  obtain ⟨c, more, rfl, hc, hnext⟩ := h
  exact .piece hc (hnext rest hrest) (by simp) (.nil rest)

/-- A lexeme of one piece. -/
theorem scans_singleton {l : Lexeme} {p : Piece} (h : Takes l.spell.toList p) :
    Scans [l] [p] := by
  intro rest hrest
  rw [toList_text_singleton]
  exact h.leads hrest

/-- No character that may stand in a name is a quotation mark or white space. -/
theorem isIdentifierChar_ne {c d : Char} (h : Text.isIdentifierChar c = true)
    (hd : Text.isIdentifierChar d = false) : c ≠ d := by
  rintro rfl
  exact absurd h (by simp [hd])

theorem isWhitespace_of_isIdentifierChar {c : Char} (h : Text.isIdentifierChar c = true) :
    c.isWhitespace = false := by
  have hne : ∀ d, Text.isIdentifierChar d = false → c ≠ d := fun d hd => isIdentifierChar_ne h hd
  simp [Char.isWhitespace, hne ' ' (by decide), hne '\t' (by decide), hne '\r' (by decide),
    hne '\n' (by decide)]

theorem Ends.not_identifier {rest : List Char} (h : Ends rest) :
    ∀ c ∈ rest.head?, Text.isIdentifierChar c = false :=
  h.head_not (by decide)

/-- Whether a text is spelled like a word: a letter first, and no character that ends it. -/
def isWord (text : String) : Bool :=
  match text.toList with
  | [] => false
  | c :: cs => !c.isDigit && (c :: cs).all Text.isIdentifierChar

theorem takes_word {text : String} (h : isWord text = true) :
    Takes text.toList (.ofWord text.toList) := by
  rw [isWord] at h
  split at h
  · exact absurd h (by simp)
  · rename_i c cs htext
    simp only [Bool.and_eq_true, Bool.not_eq_true', List.all_eq_true] at h
    obtain ⟨hdigit, hall⟩ := h
    have hc := hall c (by simp)
    refine ⟨c, cs, htext, isWhitespace_of_isIdentifierChar hc, fun rest hrest => ?_⟩
    have hcs : ∀ d ∈ cs, Text.isIdentifierChar d = true := fun d hd => hall d (by simp [hd])
    obtain ⟨htake, hdrop⟩ := takeWhile_run hcs hrest.not_identifier
    have hne : ∀ {d : Char}, Text.isIdentifierChar d = false → c ≠ d := isIdentifierChar_ne hc
    rw [next, if_neg (hne (by decide)), if_neg (hne (by decide)), if_neg (hne (by decide)),
      if_neg (by simp [hdigit]), if_pos hc, htake, hdrop, htext]

theorem scans_word {text : String} (h : isWord text = true) :
    Scans [word text] [.ofWord text.toList] :=
  scans_singleton (takes_word h)

theorem quoted_append {quotation : Char} {content : String} {rest : List Char}
    (hcontent : ∀ c ∈ content.toList, c ≠ quotation) (hrest : rest.head? ≠ some quotation) :
    quoted quotation (content.toList ++ quotation :: rest) = some (content, rest) := by
  have hrun : ∀ c ∈ content.toList, (c != quotation) = true := by simpa using hcontent
  have hend : ∀ c ∈ (quotation :: rest).head?, (c != quotation) = false := by simp
  obtain ⟨htake, hdrop⟩ := takeWhile_run hrun hend
  rw [quoted, htake, hdrop]
  dsimp only
  rw [if_neg hrest, String.ofList_toList]

theorem Ends.head_ne {rest : List Char} (h : Ends rest) {c : Char} (hc : c ∉ enders) :
    rest.head? ≠ some c :=
  fun hhead => hc (h c hhead)

theorem next_name {name : String} (h : ∀ c ∈ name.toList, Text.isIdentifierChar c = true)
    {rest : List Char} (hrest : rest.head? ≠ some '\x60') :
    next '\x60' (name.toList ++ '\x60' :: rest) = some (.column name, rest) := by
  have hquoted := quoted_append (fun c hc => isIdentifierChar_ne (h c hc) (by decide)) hrest
  rw [next, if_pos rfl, hquoted]
  rfl

theorem takes_name {name : String} (h : ∀ c ∈ name.toList, Text.isIdentifierChar c = true) :
    Takes (Lexeme.name name).spell.toList (.column name) := by
  refine ⟨'\x60', name.toList ++ ['\x60'], by simp [Lexeme.spell], by decide, fun rest hrest => ?_⟩
  rw [List.append_assoc, List.singleton_append, next_name h (hrest.head_ne (by decide))]

theorem scans_name {name : String} (h : ∀ c ∈ name.toList, Text.isIdentifierChar c = true) :
    Scans [.name name] [.column name] :=
  scans_singleton (takes_name h)

theorem takes_anyText : Takes Lexeme.anyText.spell.toList (.text "%") := by
  refine ⟨'"', ['%', '"'], rfl, by decide, fun rest hrest => ?_⟩
  have hcontent : ∀ c ∈ "%".toList, c ≠ '"' := by simp
  have hquoted := quoted_append hcontent (hrest.head_ne (c := '"') (by decide))
  rw [next, if_neg (by decide), if_pos rfl,
    show ['%', '"'] ++ rest = "%".toList ++ '"' :: rest from rfl, hquoted, Option.bind_eq_bind,
    Option.bind_some]
  exact if_neg (by decide)

theorem scans_anyText : Scans [.anyText] [.text "%"] :=
  scans_singleton takes_anyText

theorem takes_placeholder {name : String} (h : ∀ c ∈ name.toList, Text.isIdentifierChar c = true) :
    Takes (placeholder name).spell.toList (.placeholder name) := by
  refine ⟨'@', name.toList, by simp [Lexeme.spell], by decide, fun rest hrest => ?_⟩
  obtain ⟨htake, hdrop⟩ := takeWhile_run h hrest.not_identifier
  rw [next, if_neg (by decide), if_neg (by decide), if_pos rfl, htake, hdrop,
    String.ofList_toList]

theorem scans_placeholder {name : String} (h : ∀ c ∈ name.toList, Text.isIdentifierChar c = true) :
    Scans [placeholder name] [.placeholder name] :=
  scans_singleton (takes_placeholder h)

theorem takes_operator (op : Comparison) :
    Takes (mark op.operator).spell.toList (.operator (.compare op)) := by
  obtain ⟨c, cs, hspell, hc, hnext⟩ : ∃ c cs, (mark op.operator).spell.toList = c :: cs ∧
      c.isWhitespace = false ∧ ∀ rest, next c (cs ++ rest) = punctuation (c :: (cs ++ rest)) := by
    cases op with
    | eq => exact ⟨'=', [], rfl, by decide, fun _ => rfl⟩
    | ne => exact ⟨'!', ['='], rfl, by decide, fun _ => rfl⟩
    | lt => exact ⟨'<', [], rfl, by decide, fun _ => rfl⟩
    | le => exact ⟨'<', ['='], rfl, by decide, fun _ => rfl⟩
    | gt => exact ⟨'>', [], rfl, by decide, fun _ => rfl⟩
    | ge => exact ⟨'>', ['='], rfl, by decide, fun _ => rfl⟩
  refine ⟨c, cs, hspell, hc, fun rest hrest => ?_⟩
  -- what follows could lengthen the operator, but no end does
  rw [hnext, ← List.cons_append, ← hspell]
  cases rest with
  | nil => cases op <;> rfl
  | cons d rest =>
    have hd := ends_cons.mp hrest
    simp only [enders, List.mem_cons, List.not_mem_nil, or_false] at hd
    rcases hd with rfl | rfl | rfl | rfl | rfl | rfl | rfl <;> cases op <;> rfl

theorem scans_operator (op : Comparison) : Scans [mark op.operator] [.operator (.compare op)] :=
  scans_singleton (takes_operator op)

/-! ### Numerals -/

theorem fraction_append {cs rest : List Char} (h : Number.Fraction cs)
    (hdigit : ∀ c ∈ rest.head?, c.isDigit = false) (hpoint : rest.head? ≠ some '.') :
    fraction (cs ++ rest) = (cs, rest) := by
  cases h with
  | none =>
    rw [List.nil_append, fraction.eq_def]
    split
    · exact absurd rfl hpoint
    · rfl
  | point each =>
    obtain ⟨htake, hdrop⟩ := takeWhile_run each hdigit
    rw [List.cons_append, fraction, htake, hdrop]

theorem exponent_append {cs rest : List Char} (h : Number.Exponent cs) (hrest : Ends rest) :
    exponent (cs ++ rest) = (cs, rest) := by
  have hdigit := hrest.head_not (p := Char.isDigit) (by decide)
  cases h with
  | none =>
    rw [List.nil_append, exponent.eq_def]
    split
    · exact absurd rfl (hrest.head_ne (by decide))
    · exact absurd rfl (hrest.head_ne (by decide))
    · rfl
  | plain some each =>
    rename_i digits
    obtain ⟨htake, hdrop⟩ := takeWhile_run each hdigit
    have hsign : ∀ more, digits ++ rest = '-' :: more → False := by
      intro more heq
      cases digits with
      | nil => exact hrest.head_ne (c := '-') (by decide) (congrArg List.head? heq)
      | cons c digits =>
        obtain ⟨rfl, -⟩ := List.cons.inj heq
        exact absurd (each '-' (by simp)) (by decide)
    rw [List.cons_append, exponent.eq_2 _ hsign, htake, hdrop]
  | negative some each =>
    obtain ⟨htake, hdrop⟩ := takeWhile_run each hdigit
    rw [List.cons_append, List.cons_append, exponent, htake, hdrop]

theorem numeral_append {cs rest : List Char} (h : Number.Numeral cs) (hrest : Ends rest) :
    numeral (cs ++ rest) = some (String.ofList cs, rest) := by
  obtain ⟨-, each, behind, scaled⟩ := h
  rename_i whole fr ex
  have hdigit := hrest.head_not (p := Char.isDigit) (by decide)
  -- each part of the numeral stops at the first character of the next one, or at the end
  have hex : ∀ c ∈ (ex ++ rest).head?, c = 'e' ∨ c ∈ rest.head? := by
    cases scaled with
    | none => exact fun c hc => .inr hc
    | plain _ _ => simp
    | negative _ _ => simp
  have hfr : ∀ c ∈ (fr ++ (ex ++ rest)).head?, c = '.' ∨ c = 'e' ∨ c ∈ rest.head? := by
    cases behind with
    | none => exact fun c hc => .inr (hex c hc)
    | point _ => simp
  have hwhole : ∀ c ∈ (fr ++ (ex ++ rest)).head?, c.isDigit = false := by
    intro c hc
    rcases hfr c hc with rfl | rfl | hc
    · decide
    · decide
    · exact hdigit c hc
  have hbehind : fraction (fr ++ (ex ++ rest)) = (fr, ex ++ rest) := by
    refine fraction_append behind (fun c hc => ?_) fun hpoint => ?_
    · rcases hex c hc with rfl | hc
      · decide
      · exact hdigit c hc
    · rcases hex '.' hpoint with h | h
      · exact absurd h (by decide)
      · exact hrest.head_ne (by decide) h
  obtain ⟨htake, hdrop⟩ := takeWhile_run each hwhole
  have hnot : rest.head?.any Text.isIdentifierChar = false := by
    cases hhead : rest.head? with
    | none => rfl
    | some c => exact hrest.not_identifier c hhead
  rw [numeral]
  simp only [List.append_assoc] at *
  rw [htake, hdrop, hbehind]
  dsimp only
  rw [exponent_append scaled hrest]
  simp [hnot]

theorem takes_numeral {cs : List Char} (h : Number.Numeral cs) :
    Takes cs (.number (String.ofList cs)) := by
  obtain ⟨c, more, rfl, hc⟩ : ∃ c more, cs = c :: more ∧ c.isDigit = true := by
    obtain ⟨some, each, -, -⟩ := h
    rename_i whole _ _
    obtain ⟨c, more, rfl⟩ := List.exists_cons_of_ne_nil some
    exact ⟨c, _, rfl, each c (by simp)⟩
  have hname : Text.isIdentifierChar c = true := by
    simp [Text.isIdentifierChar, Char.isAlphanum, hc]
  have hne : ∀ {d : Char}, Text.isIdentifierChar d = false → c ≠ d := isIdentifierChar_ne hname
  refine ⟨c, more, rfl, isWhitespace_of_isIdentifierChar hname, fun rest hrest => ?_⟩
  rw [next, if_neg (hne (by decide)), if_neg (hne (by decide)), if_neg (hne (by decide)),
    if_pos hc, ← List.cons_append, numeral_append h hrest]
  rfl

/-- A digit follows the sign of a numeral, so it begins no comment. -/
theorem next_minus {cs : List Char} (h : Number.Numeral cs) (rest : List Char) :
    next '-' (cs ++ rest) = some (.minus, cs ++ rest) := by
  obtain ⟨some, each, -, -⟩ := h
  rename_i whole _ _
  obtain ⟨c, more, rfl⟩ := List.exists_cons_of_ne_nil some
  have hne : c ≠ '-' := by
    rintro rfl
    exact absurd (each '-' (by simp)) (by decide)
  rw [next, if_neg (by decide), if_neg (by decide), if_neg (by decide), if_neg (by decide),
    if_neg (by decide)]
  simp [punctuation, hne]

end Condition

/-- The operand that a numeral spells. -/
def Leaf.ofNumeral : List Char → Leaf
  | '-' :: cs => .number true (String.ofList cs)
  | cs => .number false (String.ofList cs)

namespace Condition

theorem ofNumeral_of_numeral {cs : List Char} (h : Number.Numeral cs) :
    Leaf.ofNumeral cs = .number false (String.ofList cs) := by
  obtain ⟨some, each, -, -⟩ := h
  rename_i whole _ _
  obtain ⟨c, more, rfl⟩ := List.exists_cons_of_ne_nil some
  rw [Leaf.ofNumeral]
  intro cs heq
  obtain ⟨rfl, -⟩ := List.cons.inj heq
  exact absurd (each '-' (by simp)) (by decide)

theorem scans_numeral {l : Lexeme} {cs : List Char} (hl : l.spell.toList = cs)
    (h : Number.Signed cs) : Scans [l] (Leaf.ofNumeral cs).pieces := by
  intro rest hrest
  rw [toList_text_singleton, hl]
  cases h with
  | plain unsigned =>
    rw [ofNumeral_of_numeral unsigned]
    exact (takes_numeral unsigned).leads hrest
  | negative unsigned =>
    exact .piece (by decide) (next_minus unsigned rest) (Nat.le_refl _)
      ((takes_numeral unsigned).leads hrest)

/-! ### Forms -/

/-- A lexeme with which anything may begin anew. -/
def Begins (l : Lexeme) : Prop :=
  l = space ∨ l = mark "(" ∨ l = mark ")" ∨ l = mark ","

theorem Begins.ends {l : Lexeme} (h : Begins l) (ls : List Lexeme) (rest : List Char) :
    Ends ((Lexeme.text (l :: ls)).toList ++ rest) := by
  rw [Lexeme.toList_text_cons]
  have hends : ∀ {c : Char} {cs : List Char}, c ∈ enders → Ends (c :: cs) := ends_cons.mpr
  rcases h with rfl | rfl | rfl | rfl
  · exact hends (c := ' ') (by decide)
  · exact hends (c := '(') (by decide)
  · exact hends (c := ')') (by decide)
  · exact hends (c := ',') (by decide)

theorem scans_nil : Scans [] [] :=
  fun rest _ => .nil rest

theorem Scans.append {xs ys : List Lexeme} {ps qs : List Piece} {l : Lexeme} (h : Scans xs ps)
    (hl : Begins l) (h' : Scans (l :: ys) qs) : Scans (xs ++ l :: ys) (ps ++ qs) := by
  intro rest hrest
  rw [Lexeme.text_append, String.toList_append, List.append_assoc]
  exact (h _ (hl.ends ys rest)).append (h' rest hrest)

theorem Scans.space_cons {ls : List Lexeme} {ps : List Piece} (h : Scans ls ps) :
    Scans (space :: ls) ps := by
  intro rest hrest
  rw [Lexeme.toList_text_cons]
  exact .blank (by decide) (h rest hrest)

/-- A mark that nothing else begins with needs no end. -/
theorem Scans.punctuation_cons {l : Lexeme} {p : Piece} {ls : List Lexeme} {ps : List Piece}
    (hl : (l, p) ∈ [(mark "(", Piece.openParen), (mark ")", .closeParen), (mark ",", .comma)])
    (h : Scans ls ps) : Scans (l :: ls) (p :: ps) := by
  intro rest hrest
  rw [Lexeme.toList_text_cons]
  simp only [List.mem_cons, Prod.mk.injEq, List.not_mem_nil, or_false] at hl
  rcases hl with ⟨rfl, rfl⟩ | ⟨rfl, rfl⟩ | ⟨rfl, rfl⟩ <;>
    exact .piece (by decide) rfl (Nat.le_refl _) (h rest hrest)

theorem Scans.parenthesized {ls : List Lexeme} {ps : List Piece} (h : Scans ls ps) :
    Scans (mark "(" :: (ls ++ [mark ")"])) (.openParen :: (ps ++ [.closeParen])) := by
  have hclose : Scans [mark ")"] [.closeParen] := scans_nil.punctuation_cons (by simp)
  exact (h.append (.inr (.inr (.inl rfl))) hclose).punctuation_cons (by simp)

theorem Scans.binary {left right : List Lexeme} {l : Lexeme} {p : Piece} {ps qs : List Piece}
    (first : Scans left ps) (operator : Scans [l] [p]) (second : Scans right qs) :
    Scans (binary left l right) (ps ++ p :: qs) := by
  have hbehind : Scans (space :: l :: space :: right) (p :: qs) :=
    (operator.append (.inl rfl) second.space_cons).space_cons
  rw [TypedSql.binary, List.append_assoc]
  exact first.append (.inl rfl) hbehind

theorem scans_nullTest (negated : Bool) :
    Scans (nullTest negated) (Phrase.testPieces negated) := by
  have his : Scans [word "IS"] [.is] := scans_word rfl
  have hnull : Scans [space, word "NULL"] [.constant none] := (scans_word rfl).space_cons
  cases negated with
  | false => exact (his.append (.inl rfl) hnull).space_cons
  | true =>
    have hnot : Scans [word "NOT"] [.not] := scans_word rfl
    exact (his.append (.inl rfl) (hnot.append (.inl rfl) hnull).space_cons).space_cons

/-- Lists of lexemes are scanned one after the other, with the piece of the separator between each
two. -/
theorem scans_joined {l : Lexeme} {behind : List Lexeme} {q : Piece} (hl : Begins l)
    (hseparator : ∀ {ls ps}, Scans ls ps → Scans (l :: (behind ++ ls)) (q :: ps))
    {parts : List (List Lexeme)} {pss : List (List Piece)} (h : List.Forall₂ Scans parts pss) :
    Scans (Lexeme.joined (l :: behind) parts) (pss.intersperse [q]).flatten := by
  induction h with
  | nil => exact scans_nil
  | cons first more ih =>
    cases more with
    | nil => simpa [Lexeme.joined] using first
    | cons second rest =>
      have happend := first.append hl (hseparator ih)
      simpa [Lexeme.joined] using happend

theorem scans_call {function : String} (hword : isWord function = true)
    (hfunction : Piece.ofWord function.toList = .function function) {parts : List (List Lexeme)}
    {es : List Phrase} (h : List.Forall₂ (fun ls e => Scans ls e.pieces) parts es) :
    Scans (sqlCall function parts) (Phrase.call function es).pieces := by
  have hcomma : ∀ {ls ps}, Scans ls ps → Scans (mark "," :: ([space] ++ ls)) (.comma :: ps) :=
    fun h => h.space_cons.punctuation_cons (by simp)
  have harguments := scans_joined (.inr (.inr (.inr rfl))) hcomma
    (List.forall₂_map_right_iff.mpr h)
  have hname := scans_word hword
  rw [hfunction] at hname
  rw [Phrase.pieces, Phrase.piecesOfList_eq]
  exact hname.append (.inr (.inl rfl)) harguments.parenthesized

end Condition

end TypedSql
