/-
The tokens of a text cover it.

A spelling is a symbol, a word or a number (`OfKind`). The scanner takes the longest spelling of one
kind at a time (`Longest`) and leaves white space out, and nothing else. So its tokens cover the
text (`Covers`), and it refuses exactly the texts that no tokens cover.

* `read?_eq_ok_iff` — one spelling is read if and only if it is the longest one of its kind;
* `scan_eq_ok_iff` — a text is scanned as some tokens if and only if they cover it;
* `Covers.increasing`, `Covers.boundary` — these tokens start at characters of the text, one behind
  the other;
* `scanFrom_eq_error` — a refusal is a fault at a character of the text or at its end.
-/
import TypedSql.Proofs.IntegerLiterals

namespace TypedSql

namespace Token

open Text

/-! ### Spellings by kind -/

/-- The kinds of spellings. -/
inductive SpellingKind where
  | symbol
  | word
  | number
  deriving DecidableEq, Repr

/-- The integer that digits spell, if it is in range. -/
def integer? (digits : List Char) : Option Token :=
  if digitsValue digits < integerBound then some (.integer (digitsValue digits)) else none

/-- The spellings of each kind, with their tokens. An integer that is out of range is spelled like
others, but has no token. -/
inductive OfKind : SpellingKind → List Char → Option Token → Prop
  | symbol {spelling : List Char} {t : Token} (mem : (spelling, t) ∈ symbols) :
      OfKind .symbol spelling (some t)
  | word {c : Char} {behind : List Char} (first : startsWord c = true)
      (each : ∀ d ∈ behind, isIdentifierChar d = true) :
      OfKind .word (c :: behind) (some (ofWord (String.ofList (c :: behind))))
  | whole {digits : List Char} (some : digits ≠ []) (each : ∀ c ∈ digits, c.isDigit = true) :
      OfKind .number digits (integer? digits)
  | fraction {whole part : List Char} (someWhole : whole ≠ [])
      (eachWhole : ∀ c ∈ whole, c.isDigit = true) (somePart : part ≠ [])
      (eachPart : ∀ c ∈ part, c.isDigit = true) :
      OfKind .number (whole ++ '.' :: part)
        (some (.number (Number.binary64.ofDecimal false (digitsValue (whole ++ part))
          (-part.length))))

/-- The longest spelling of its kind that a text begins with. -/
structure Longest (kind : SpellingKind) (spelling : List Char) (t : Option Token)
    (text : List Char) : Prop where
  spelled : OfKind kind spelling t
  begins : spelling <+: text
  longest {s : List Char} {t' : Option Token} (other : OfKind kind s t') (start : s <+: text) :
    s.length ≤ spelling.length

/-- A text has one longest spelling of a kind. -/
theorem Longest.spelling_unique {kind : SpellingKind} {s s' text : List Char} {t t' : Option Token}
    (h : Longest kind s t text) (h' : Longest kind s' t' text) : s = s' := by
  have hle := h'.longest h.spelled h.begins
  have hge := h.longest h'.spelled h'.begins
  exact (List.prefix_of_prefix_length_le h.begins h'.begins hle).eq_of_length (by omega)

/-- A spelling of a kind has one token. -/
theorem OfKind.unique {kind : SpellingKind} {s : List Char} {t t' : Option Token}
    (h : OfKind kind s t) (h' : OfKind kind s t') : t = t' := by
  have hpoint {digits whole part : List Char} (each : ∀ c ∈ digits, c.isDigit = true) :
      digits ≠ whole ++ '.' :: part := by
    rintro rfl
    exact absurd (each '.' (by simp)) (by decide)
  cases h with
  | symbol mem =>
    cases h' with
    | symbol mem' =>
      have hunique : ∀ x ∈ symbols, ∀ y ∈ symbols, x.1 = y.1 → x.2 = y.2 := by decide
      exact congrArg some (hunique _ mem _ mem' rfl)
  | word => cases h' with | word => rfl
  | whole some each =>
    generalize hs : s = spelling at h'
    cases h' with
    | whole => rfl
    | fraction => exact absurd hs (hpoint each)
  | @fraction whole part someWhole eachWhole somePart eachPart =>
    generalize hs : whole ++ '.' :: part = spelling at h'
    cases h' with
    | whole some each => exact absurd hs.symm (hpoint each)
    | @fraction whole' part' someWhole' eachWhole' somePart' eachPart' =>
      -- both points stand behind the run of digits
      have hrun := @takeWhile_run _ _ ('.' :: part) eachWhole (by simp)
      have hrun' := @takeWhile_run _ _ ('.' :: part') eachWhole' (by simp)
      rw [← hs] at hrun'
      obtain rfl := hrun.1.symm.trans hrun'.1
      obtain rfl := (List.cons.inj (hrun.2.symm.trans hrun'.2)).2
      rfl

/-! ### Reading one spelling -/

/-- What a text begins with, of characters of one kind, is part of the run that is taken. -/
theorem prefix_takeWhile {p : Char → Bool} {s cs : List Char} (hs : ∀ c ∈ s, p c = true)
    (h : s <+: cs) : s <+: cs.takeWhile p := by
  obtain ⟨rest, rfl⟩ := h
  rw [List.takeWhile_append_of_pos hs]
  exact List.prefix_append _ _

/-- The symbol that is read is the longest one. -/
theorem symbol?_eq_some_iff {cs spelling : List Char} {t : Token} :
    symbol? cs = some (spelling, t) ↔ Longest .symbol spelling (some t) cs := by
  rw [symbol?, List.find?_eq_some_iff_append]
  constructor
  · rintro ⟨hbegins, earlier, later, hsplit, hearlier⟩
    rw [List.isPrefixOf_iff_prefix] at hbegins
    have hlongest := symbols_longest
    rw [hsplit, List.pairwise_append] at hlongest
    refine ⟨.symbol (by rw [hsplit]; simp), hbegins, ?_⟩
    intro s t' hs hstart
    obtain ⟨mem⟩ := hs
    by_contra hlonger
    have hshorter : spelling <+: s :=
      List.prefix_of_prefix_length_le hbegins hstart (by omega)
    -- a longer symbol would be one of the earlier ones, none of which the text begins with
    rw [hsplit] at mem
    obtain hmem | hmem := List.mem_append.mp mem
    · have hnot := hearlier _ hmem
      rw [Bool.not_eq_true', ← Bool.not_eq_true, List.isPrefixOf_iff_prefix] at hnot
      exact hnot hstart
    · obtain heq | hmem := List.mem_cons.mp hmem
      · obtain ⟨rfl, -⟩ := Prod.mk.inj heq
        omega
      · exact ((List.pairwise_cons.mp hlongest.2.1).1 _ hmem).1 hshorter
  · rintro ⟨⟨mem⟩, hbegins, hlongest⟩
    obtain ⟨earlier, later, hsplit⟩ := List.append_of_mem mem
    have hapart := symbols_longest
    rw [hsplit, List.pairwise_append] at hapart
    refine ⟨List.isPrefixOf_iff_prefix.mpr hbegins, earlier, later, hsplit, ?_⟩
    intro longer hlonger
    rw [Bool.not_eq_true', ← Bool.not_eq_true, List.isPrefixOf_iff_prefix]
    intro hstart
    -- an earlier symbol is no longer, and is not the beginning of this one
    have hmem : (longer.1, longer.2) ∈ symbols := by rw [hsplit]; simp [hlonger]
    exact (hapart.2.2 longer hlonger _ List.mem_cons_self).1
      (List.prefix_of_prefix_length_le hstart hbegins (hlongest (.symbol hmem) hstart))

/-- The word that is read is the longest one. -/
theorem longest_word {c : Char} {rest : List Char} (hc : startsWord c = true) :
    Longest .word ((c :: rest).takeWhile isIdentifierChar)
      (some (ofWord (String.ofList ((c :: rest).takeWhile isIdentifierChar)))) (c :: rest) := by
  have hfirst := isIdentifierChar_of_startsWord hc
  refine ⟨?_, List.takeWhile_prefix _, ?_⟩
  · rw [List.takeWhile_cons_of_pos hfirst]
    exact .word hc fun d hd => List.mem_takeWhile_imp hd
  · intro s t' hs hstart
    cases hs with
    | @word d behind first each =>
      have hrun : ∀ x ∈ d :: behind, isIdentifierChar x = true :=
        List.forall_mem_cons.mpr ⟨isIdentifierChar_of_startsWord first, each⟩
      exact (prefix_takeWhile hrun hstart).length_le

/-- The digits that a text begins with, with the fraction behind them. -/
def numberSpelling (cs : List Char) : List Char :=
  cs.takeWhile Char.isDigit ++ fraction (cs.dropWhile Char.isDigit)

/-- A fraction is a point and the run of digits behind it, if there are digits. -/
theorem fraction_point (rest : List Char) : fraction ('.' :: rest) =
    if rest.takeWhile Char.isDigit = [] then [] else '.' :: rest.takeWhile Char.isDigit := by
  rw [fraction]
  simp only [List.isEmpty_iff]

theorem fraction_eq_nil_or (cs : List Char) : fraction cs = [] ∨
    ∃ part, fraction cs = '.' :: part ∧ part ≠ [] ∧ ∀ c ∈ part, c.isDigit = true := by
  by_cases hpoint : ∃ rest, cs = '.' :: rest
  · obtain ⟨rest, rfl⟩ := hpoint
    rw [fraction_point]
    split_ifs with hnone
    · exact .inl rfl
    · exact .inr ⟨_, rfl, hnone, fun c hc => List.mem_takeWhile_imp hc⟩
  · exact .inl (fraction.eq_2 cs fun rest h => hpoint ⟨rest, h⟩)

theorem fraction_prefix (cs : List Char) : fraction cs <+: cs := by
  by_cases hpoint : ∃ rest, cs = '.' :: rest
  · obtain ⟨rest, rfl⟩ := hpoint
    rw [fraction_point]
    split_ifs
    · exact List.nil_prefix
    · rw [List.cons_prefix_cons]
      exact ⟨rfl, List.takeWhile_prefix _⟩
  · rw [fraction.eq_2 cs fun rest h => hpoint ⟨rest, h⟩]
    exact List.nil_prefix

theorem numberSpelling_prefix (cs : List Char) : numberSpelling cs <+: cs := by
  have hfraction := fraction_prefix (cs.dropWhile Char.isDigit)
  rw [← List.prefix_append_right_inj (cs.takeWhile Char.isDigit),
    List.takeWhile_append_dropWhile] at hfraction
  exact hfraction

/-- No number that a text begins with is longer than its digits and their fraction. -/
theorem length_le_numberSpelling {s cs : List Char} {t : Option Token} (hs : OfKind .number s t)
    (hstart : s <+: cs) : s.length ≤ (numberSpelling cs).length := by
  rw [numberSpelling, List.length_append]
  cases hs with
  | whole some each => exact Nat.le_add_right_of_le (prefix_takeWhile each hstart).length_le
  | @fraction whole part someWhole eachWhole somePart eachPart =>
    obtain ⟨rest, rfl⟩ := hstart
    -- the digits in front of the point are the whole run, so the point stands behind it
    have hrun := @takeWhile_run _ _ ('.' :: part ++ rest) eachWhole (by simp)
    rw [List.append_assoc, hrun.1, hrun.2, List.cons_append, fraction_point, if_neg]
    · have hpart := (prefix_takeWhile eachPart (List.prefix_append part rest)).length_le
      simp only [List.length_append, List.length_cons]
      omega
    · intro hnone
      have hpart := prefix_takeWhile eachPart (List.prefix_append part rest)
      rw [hnone, List.prefix_nil] at hpart
      exact somePart hpart

/-- The token of the number that a text begins with. -/
theorem exists_numberToken {c : Char} (hc : c.isDigit = true) (rest : List Char) (position : Nat) :
    ∃ t, Longest .number (numberSpelling (c :: rest)) t (c :: rest) ∧
      number? position (c :: rest) = match t with
        | some t => .ok (numberSpelling (c :: rest), t)
        | none => .error (.parse (position + byteLength (numberSpelling (c :: rest)))
            (.integerOutOfRange (String.ofList (numberSpelling (c :: rest))))) := by
  have hwhole : (c :: rest).takeWhile Char.isDigit ≠ [] := by
    rw [List.takeWhile_cons_of_pos hc]
    exact List.cons_ne_nil _ _
  have heach : ∀ d ∈ (c :: rest).takeWhile Char.isDigit, d.isDigit = true :=
    fun d hd => List.mem_takeWhile_imp hd
  have hlongest {t : Option Token} (h : OfKind .number (numberSpelling (c :: rest)) t) :
      Longest .number (numberSpelling (c :: rest)) t (c :: rest) :=
    ⟨h, numberSpelling_prefix _, fun hs hstart => length_le_numberSpelling hs hstart⟩
  obtain hnone | ⟨part, hpart, hsome, hdigits⟩ :=
    fraction_eq_nil_or ((c :: rest).dropWhile Char.isDigit)
  · have hspelling : numberSpelling (c :: rest) = (c :: rest).takeWhile Char.isDigit := by
      rw [numberSpelling, hnone, List.append_nil]
    have hkind : OfKind .number (numberSpelling (c :: rest))
        (integer? ((c :: rest).takeWhile Char.isDigit)) := by
      rw [hspelling]
      exact .whole hwhole heach
    refine ⟨_, hlongest hkind, ?_⟩
    rw [number?, hnone, List.isEmpty_nil, if_pos rfl, hspelling, integer?]
    dsimp only
    by_cases hbound : digitsValue ((c :: rest).takeWhile Char.isDigit) < integerBound
    · rw [if_pos hbound, if_pos hbound]
    · rw [if_neg hbound, if_neg hbound]
  · have hspelling : numberSpelling (c :: rest) =
        (c :: rest).takeWhile Char.isDigit ++ '.' :: part := by
      rw [numberSpelling, hpart]
    have hkind : OfKind .number (numberSpelling (c :: rest))
        (some (.number (Number.binary64.ofDecimal false
          (digitsValue ((c :: rest).takeWhile Char.isDigit ++ part)) (-part.length)))) := by
      rw [hspelling]
      exact .fraction hwhole heach hsome hdigits
    refine ⟨_, hlongest hkind, ?_⟩
    have hexponent : (1 : Int) - (('.' :: part).length : Nat) = -(part.length : Nat) := by
      rw [List.length_cons]
      omega
    rw [number?, hpart, List.isEmpty_cons, if_neg Bool.false_ne_true, hspelling, hexponent,
      List.tail_cons]

theorem not_startsWord_of_isDigit {c : Char} (h : c.isDigit = true) : startsWord c = false := by
  by_contra hstarts
  have hnot := not_isDigit_of_startsWord (c := c) (by simpa using hstarts)
  exact absurd (h.symm.trans hnot) (by simp)

section Reading

variable {position : Nat} {c : Char} {rest : List Char}

theorem read?_digit (hc : c.isDigit = true) :
    read? position (c :: rest) = number? position (c :: rest) := by
  rw [read?.eq_def, symbol?_eq_none (isIdentifierChar_of_isDigit hc)]
  exact if_pos hc

theorem read?_letter (hc : startsWord c = true) : read? position (c :: rest) =
    .ok ((c :: rest).takeWhile isIdentifierChar,
      ofWord (String.ofList ((c :: rest).takeWhile isIdentifierChar))) := by
  rw [read?.eq_def, symbol?_eq_none (isIdentifierChar_of_startsWord hc)]
  simp only [not_isDigit_of_startsWord hc, hc, if_true, Bool.false_eq_true, if_false]

theorem read?_symbol {found : List Char × Token} (h : symbol? (c :: rest) = some found) :
    read? position (c :: rest) = .ok found := by
  rw [read?.eq_def, h]

theorem read?_other (hsymbol : symbol? (c :: rest) = none) (hdigit : c.isDigit = false)
    (hword : startsWord c = false) :
    read? position (c :: rest) = .error (.parse position (.unexpectedCharacter c)) := by
  rw [read?.eq_def, hsymbol]
  simp only [hdigit, hword, Bool.false_eq_true, if_false]

end Reading

/-- One spelling is read if and only if it is the longest one of its kind. -/
theorem read?_eq_ok_iff {position : Nat} {cs spelling : List Char} {t : Token} :
    read? position cs = .ok (spelling, t) ↔ ∃ kind, Longest kind spelling (some t) cs := by
  constructor
  · intro h
    cases hsymbol : symbol? cs with
    | some found =>
      rw [read?.eq_def, hsymbol] at h
      obtain rfl := Except.ok.inj h
      exact ⟨.symbol, symbol?_eq_some_iff.mp hsymbol⟩
    | none =>
      rcases cs with _ | ⟨c, rest⟩
      · rw [read?.eq_def, hsymbol] at h
        exact absurd h (by simp)
      by_cases hdigit : c.isDigit = true
      · obtain ⟨token, hlongest, hnumber⟩ := exists_numberToken hdigit rest position
        rw [read?_digit hdigit, hnumber] at h
        cases token with
        | none => exact absurd h (by simp)
        | some token =>
          obtain ⟨rfl, rfl⟩ := Prod.mk.inj (Except.ok.inj h)
          exact ⟨.number, hlongest⟩
      by_cases hword : startsWord c = true
      · rw [read?_letter hword] at h
        obtain ⟨rfl, rfl⟩ := Prod.mk.inj (Except.ok.inj h)
        exact ⟨.word, longest_word hword⟩
      · rw [read?_other hsymbol (by simpa using hdigit) (by simpa using hword)] at h
        exact absurd h (by simp)
  · rintro ⟨kind, hlongest⟩
    cases kind with
    | symbol => rw [read?.eq_def, symbol?_eq_some_iff.mpr hlongest]
    | word =>
      obtain ⟨more, rfl⟩ := hlongest.begins
      generalize ht : some t = token at hlongest
      cases hlongest.spelled with
      | @word c behind first each =>
        obtain rfl := Option.some.inj ht
        rw [List.cons_append] at hlongest ⊢
        rw [read?_letter first, (longest_word first).spelling_unique hlongest]
    | number =>
      obtain ⟨c, rest, rfl, hdigit⟩ : ∃ c rest, cs = c :: rest ∧ c.isDigit = true := by
        obtain ⟨more, rfl⟩ := hlongest.begins
        generalize some t = token at hlongest
        cases hlongest.spelled with
        | whole some each =>
          obtain ⟨c, digits, rfl⟩ := List.exists_cons_of_ne_nil some
          exact ⟨c, digits ++ more, rfl, each c List.mem_cons_self⟩
        | fraction some each =>
          obtain ⟨c, digits, rfl⟩ := List.exists_cons_of_ne_nil some
          exact ⟨c, _, rfl, each c List.mem_cons_self⟩
      obtain ⟨token, hnumber, hread⟩ := exists_numberToken hdigit rest position
      obtain rfl := hnumber.spelling_unique hlongest
      obtain rfl := hnumber.spelled.unique hlongest.spelled
      rw [read?_digit hdigit, hread]

/-- A spelling does not begin with white space. -/
theorem OfKind.exists_cons {kind : SpellingKind} {spelling : List Char} {t : Option Token}
    (h : OfKind kind spelling t) : ∃ c behind, spelling = c :: behind ∧ isBlank c = false := by
  cases h with
  | symbol mem =>
    obtain ⟨hsome, hblank, -⟩ := symbols_begin _ mem
    obtain ⟨c, behind, rfl⟩ := List.exists_cons_of_ne_nil hsome
    exact ⟨c, behind, rfl, by simpa using hblank⟩
  | word first each =>
    exact ⟨_, _, rfl, not_isBlank_of_isIdentifierChar (isIdentifierChar_of_startsWord first)⟩
  | whole some each =>
    obtain ⟨c, behind, rfl⟩ := List.exists_cons_of_ne_nil some
    exact ⟨c, behind, rfl, not_isBlank_of_isDigit (each c List.mem_cons_self)⟩
  | fraction some each =>
    obtain ⟨c, behind, rfl⟩ := List.exists_cons_of_ne_nil some
    exact ⟨c, _, rfl, not_isBlank_of_isDigit (each c List.mem_cons_self)⟩

/-- A spelling is refused at its first character, or behind its digits. -/
theorem read?_eq_error {position : Nat} {c : Char} {rest : List Char} {err : CompileError}
    (h : read? position (c :: rest) = .error err) : ∃ front back fault,
      c :: rest = front ++ back ∧ err = .parse (position + byteLength front) fault := by
  cases hsymbol : symbol? (c :: rest) with
  | some found =>
    rw [read?_symbol hsymbol] at h
    exact absurd h (by simp)
  | none =>
    by_cases hdigit : c.isDigit = true
    · obtain ⟨token, hlongest, hnumber⟩ := exists_numberToken hdigit rest position
      rw [read?_digit hdigit, hnumber] at h
      cases token with
      | some token => exact absurd h (by simp)
      | none =>
        obtain ⟨back, hback⟩ := hlongest.begins
        exact ⟨_, back, _, hback.symm, (Except.error.inj h).symm⟩
    by_cases hword : startsWord c = true
    · rw [read?_letter hword] at h
      exact absurd h (by simp)
    · rw [read?_other hsymbol (by simpa using hdigit) (by simpa using hword)] at h
      exact ⟨[], c :: rest, _, rfl, (Except.error.inj h).symm⟩

/-! ### Texts that tokens cover -/

/-- Tokens cover a text that begins at a byte: each of them starts where the longest spelling of a
kind begins, and there is nothing but white space in front of the first spelling, between two of
them, and behind the last one. -/
inductive Covers : Nat → List Char → List Placed → Prop
  | nil {position : Nat} {after : List Char} (white : Blanks after) : Covers position after []
  | cons {position : Nat} {before spelling rest : List Char} {kind : SpellingKind} {t : Token}
      {toks : List Placed} (white : Blanks before)
      (longest : Longest kind spelling (some t) (spelling ++ rest))
      (behind : Covers (position + byteLength before + byteLength spelling) rest toks) :
      Covers position (before ++ (spelling ++ rest)) (⟨position + byteLength before, t⟩ :: toks)

/-- One step of the scanner. -/
theorem scanFrom_step {before rest : List Char} {c : Char} (white : Blanks before)
    (hc : isBlank c = false) (position fuel : Nat) :
    scanFrom position (before ++ c :: rest) (fuel + 1) =
      read? (position + byteLength before) (c :: rest) >>= fun found =>
        scanFrom (position + byteLength before + byteLength found.1)
            ((c :: rest).drop found.1.length) fuel >>= fun more =>
          pure (⟨position + byteLength before, found.2⟩ :: more) := by
  obtain ⟨htake, hdrop⟩ := @takeWhile_run _ _ (c :: rest) white (by simpa using hc)
  rw [scanFrom, htake, trimStart, hdrop]

theorem scanFrom_of_blanks {cs : List Char} (white : Blanks cs) (position fuel : Nat) :
    scanFrom position cs fuel = .ok [] := by
  cases fuel with
  | zero => rfl
  | succ fuel => simp only [scanFrom, trimStart_of_blank white]

/-- A text is white space, or has a first character behind white space. -/
theorem blanks_or_exists (cs : List Char) : Blanks cs ∨
    ∃ before c rest, cs = before ++ c :: rest ∧ Blanks before ∧ isBlank c = false := by
  have hcs := takeWhile_append_trimStart cs
  rcases htrim : trimStart cs with _ | ⟨c, rest⟩
  · left
    rw [htrim, List.append_nil] at hcs
    exact hcs ▸ blanks_takeWhile cs
  · right
    rw [htrim] at hcs
    refine ⟨_, c, rest, hcs.symm, blanks_takeWhile cs, ?_⟩
    have hfirst := List.head?_dropWhile_not isBlank cs
    rw [show cs.dropWhile isBlank = c :: rest from htrim] at hfirst
    simpa using hfirst

/-- There is fuel for every token, since each takes a character. -/
theorem covers_of_scanFrom {position fuel : Nat} {cs : List Char} {toks : List Placed}
    (h : scanFrom position cs fuel = .ok toks) (hfuel : cs.length ≤ fuel) :
    Covers position cs toks := by
  induction fuel generalizing position cs toks with
  | zero =>
    obtain rfl := List.eq_nil_of_length_eq_zero (Nat.le_zero.mp hfuel)
    obtain rfl := Except.ok.inj h
    exact .nil blanks_nil
  | succ fuel ih =>
    obtain white | ⟨before, c, rest, rfl, white, hc⟩ := blanks_or_exists cs
    · rw [scanFrom_of_blanks white] at h
      obtain rfl := Except.ok.inj h
      exact .nil white
    rw [scanFrom_step white hc] at h
    obtain ⟨⟨spelling, t⟩, hread, h₁⟩ := bind_eq_ok.mp h
    obtain ⟨more, hmore, h₂⟩ := bind_eq_ok.mp h₁
    obtain rfl := pure_eq_ok.mp h₂
    obtain ⟨kind, hlongest⟩ := read?_eq_ok_iff.mp hread
    obtain ⟨behind, hbehind⟩ := hlongest.begins
    obtain ⟨d, ds, rfl, -⟩ := hlongest.spelled.exists_cons
    rw [← hbehind] at hlongest hmore hfuel ⊢
    rw [List.drop_left] at hmore
    refine .cons white hlongest (ih hmore ?_)
    simp only [List.length_append, List.length_cons] at hfuel
    omega

theorem scanFrom_of_covers {position : Nat} {cs : List Char} {toks : List Placed}
    (h : Covers position cs toks) {fuel : Nat} (hfuel : cs.length ≤ fuel) :
    scanFrom position cs fuel = .ok toks := by
  induction h generalizing fuel with
  | nil white => exact scanFrom_of_blanks white _ _
  | @cons position before spelling rest kind t toks white longest behind ih =>
    obtain ⟨c, more, rfl, hc⟩ := longest.spelled.exists_cons
    simp only [List.length_append, List.length_cons] at hfuel
    obtain ⟨fuel, rfl⟩ := Nat.exists_eq_add_of_le' (show 1 ≤ fuel by omega)
    have hread : read? (position + byteLength before) (c :: more ++ rest) = .ok (c :: more, t) :=
      read?_eq_ok_iff.mpr ⟨kind, longest⟩
    rw [List.cons_append] at hread
    rw [List.cons_append, scanFrom_step white hc, hread, ok_bind]
    dsimp only
    rw [← List.cons_append, List.drop_left, ih (by omega)]
    rfl

/-- **A text is scanned as tokens if and only if they cover it.** -/
theorem scan_eq_ok_iff {cs : List Char} {toks : List Placed} :
    scan cs = .ok toks ↔ Covers 0 cs toks :=
  ⟨fun h => covers_of_scanFrom h (Nat.le_refl _), fun h => scanFrom_of_covers h (Nat.le_refl _)⟩

/-- A refusal is a fault at a character of the text, or at its end. -/
theorem scanFrom_eq_error {position fuel : Nat} {cs : List Char} {err : CompileError}
    (h : scanFrom position cs fuel = .error err) : ∃ front back fault,
      cs = front ++ back ∧ err = .parse (position + byteLength front) fault := by
  induction fuel generalizing position cs with
  | zero => exact absurd h (by simp [scanFrom])
  | succ fuel ih =>
    obtain white | ⟨before, c, rest, rfl, white, hc⟩ := blanks_or_exists cs
    · rw [scanFrom_of_blanks white] at h
      exact absurd h (by simp)
    rw [scanFrom_step white hc] at h
    obtain hread | ⟨⟨spelling, t⟩, hread, h₁⟩ := bind_eq_error.mp h
    · obtain ⟨front, back, fault, hsplit, rfl⟩ := read?_eq_error hread
      refine ⟨before ++ front, back, fault, by rw [hsplit, List.append_assoc], ?_⟩
      rw [byteLength_append, Nat.add_assoc]
    · obtain hmore | ⟨more, -, h₂⟩ := bind_eq_error.mp h₁
      · obtain ⟨kind, hlongest⟩ := read?_eq_ok_iff.mp hread
        obtain ⟨behind, hbehind⟩ := hlongest.begins
        rw [← hbehind, List.drop_left] at hmore
        obtain ⟨front, back, fault, rfl, rfl⟩ := ih hmore
        refine ⟨before ++ (spelling ++ front), back, fault, ?_, ?_⟩
        · rw [← hbehind, List.append_assoc, List.append_assoc]
        · simp only [byteLength_append, Nat.add_assoc]
      · exact absurd h₂ (by simp [pure, Except.pure])

/-! ### Positions -/

theorem byteLength_pos {cs : List Char} (h : cs ≠ []) : 0 < byteLength cs := by
  obtain ⟨c, rest, rfl⟩ := List.exists_cons_of_ne_nil h
  have hc := c.utf8Size_pos
  rw [byteLength]
  omega

/-- The tokens that cover a text start at characters of it. -/
theorem Covers.boundary {position : Nat} {cs : List Char} {toks : List Placed}
    (h : Covers position cs toks) {p : Placed} (hp : p ∈ toks) :
    ∃ front back, cs = front ++ back ∧ p.position = position + byteLength front := by
  induction h with
  | nil white => exact absurd hp List.not_mem_nil
  | @cons position before spelling rest kind t toks white longest behind ih =>
    obtain rfl | hp := List.mem_cons.mp hp
    · exact ⟨before, spelling ++ rest, rfl, rfl⟩
    · obtain ⟨front, back, rfl, hposition⟩ := ih hp
      refine ⟨before ++ (spelling ++ front), back, by simp, ?_⟩
      simp only [hposition, byteLength_append, Nat.add_assoc]

/-- The tokens that cover a text start one behind the other. -/
theorem Covers.increasing {position : Nat} {cs : List Char} {toks : List Placed}
    (h : Covers position cs toks) : toks.Pairwise fun p q => p.position < q.position := by
  induction h with
  | nil white => exact .nil
  | @cons position before spelling rest kind t toks white longest behind ih =>
    refine List.pairwise_cons.mpr ⟨fun p hp => ?_, ih⟩
    obtain ⟨front, back, -, hposition⟩ := behind.boundary hp
    obtain ⟨c, more, hspelling, -⟩ := longest.spelled.exists_cons
    have hlength : 0 < byteLength spelling := byteLength_pos (by simp [hspelling])
    show position + byteLength before < p.position
    omega

end Token

end TypedSql
