/-
Texts of tokens, and that the scanner takes them apart.

A text of tokens is made of their spellings (`Token.Spells`), with any white space around each, also
none (`Token.Spaced`). Where there is none, the spellings must not run into each other: a name or a
number goes on with another one, a number with a point and digits too, and `!`, `<` and `>` with `=`
(`Token.mayPrecede`).

* `read?_of_spells` — a spelling is read as its token where what follows does not go on with it;
* `scan_of_spaced` — a text of tokens, each of which may precede the next one, is scanned as these
  tokens.
-/
import TypedSql.Filter.Token
import TypedSql.Proofs.Numeral
import TypedSql.Proofs.Outcome
import TypedSql.Proofs.Runs

namespace TypedSql

namespace Token

open Text

/-! ### Spellings -/

/-- Whether a text is a name: a letter, `_` or `$`, and letters, digits, `_` and `$` behind it. Two
of these words are operators instead. -/
def isName (name : String) : Bool :=
  name.toList.head?.any startsWord && name.toList.all isIdentifierChar && name != "AndAlso" &&
    name != "OrElse"

/-- The spellings of a token. A number with a fraction is left out. -/
inductive Spells : Token → List Char → Prop
  | symbol {spelling : List Char} {t : Token} (mem : (spelling, t) ∈ symbols) : Spells t spelling
  | word {name : String} (named : isName name = true) : Spells (.word name) name.toList
  | integer {digits : List Char} {n : Nat} (some : digits ≠ [])
      (each : ∀ c ∈ digits, c.isDigit = true) (value : digitsValue digits = n)
      (bound : n < integerBound) : Spells (.integer n) digits

/-- Characters that spell tokens, with any white space around them. -/
inductive Spaced : List Token → List Char → Prop
  | nil {after : List Char} (white : Blanks after) : Spaced [] after
  | cons {before spelling rest : List Char} {t : Token} {ts : List Token} (white : Blanks before)
      (spelled : Spells t spelling) (behind : Spaced ts rest) :
      Spaced (t :: ts) (before ++ (spelling ++ rest))

/-- Whether two tokens are told apart with no white space between them. A point is told from that of
a number by the name behind it. -/
def mayPrecede : Token → Token → Bool
  | dot, word _ => true
  | dot, _ => false
  | word _, word _ | word _, integer _ | integer _, word _ | integer _, integer _ => false
  | bang, comparison _ | bang, arrow | comparison _, comparison _ | comparison _, arrow => false
  | _, _ => true

/-- Characters that do not go on with the spelling of a token. -/
def Ends : Token → List Char → Prop
  | word _, rest => ∀ c ∈ rest.head?, isIdentifierChar c = false
  | integer _, rest => (∀ c ∈ rest.head?, c.isDigit = false) ∧ fraction rest = []
  | bang, rest | comparison _, rest => '=' ∉ rest.head?
  | _, _ => True

theorem isName_iff {name : String} : isName name = true ↔
    (∃ c ∈ name.toList.head?, startsWord c = true) ∧
      (∀ c ∈ name.toList, isIdentifierChar c = true) ∧ name ≠ "AndAlso" ∧ name ≠ "OrElse" := by
  simp [isName, Option.any_eq_true, and_assoc]

theorem ofWord_of_isName {name : String} (h : isName name = true) : ofWord name = .word name := by
  obtain ⟨-, -, hand, hor⟩ := isName_iff.mp h
  rw [ofWord, if_neg hand, if_neg hor]

/-- The decimal spelling of a number. -/
theorem spells_toDigits {n : Nat} (bound : n < integerBound) :
    Spells (.integer n) (Nat.toDigits 10 n) :=
  .integer Nat.toDigits_ne_nil Number.isDigit_toDigits (digitsValue_toDigits n) bound

/-! ### Reading one spelling -/

/-- No symbol begins with a character of a name or a number. -/
theorem symbol?_eq_none {c : Char} (hc : isIdentifierChar c = true) (rest : List Char) :
    symbol? (c :: rest) = none := by
  have hall : ∀ s ∈ symbols, s.1.head?.any isIdentifierChar = false ∧ s.1 ≠ [] := by decide
  rw [symbol?, List.find?_eq_none]
  intro s hs hprefix
  obtain ⟨hfirst, hsome⟩ := hall s hs
  obtain ⟨c', more, hs'⟩ := List.exists_cons_of_ne_nil hsome
  rw [hs', List.isPrefixOf_iff_prefix, List.cons_prefix_cons] at hprefix
  obtain ⟨rfl, -⟩ := hprefix
  rw [hs'] at hfirst
  exact absurd (hc.symm.trans hfirst) (by simp)

/-- No symbol is the beginning of a later one, and a later one is the beginning of a symbol only
where `=` follows. -/
theorem symbols_longest : symbols.Pairwise fun longer s => ¬longer.1 <+: s.1 ∧
    (s.1 <+: longer.1 →
      longer.1 = s.1 ++ ['='] ∧ s.2 ∈ [bang, comparison .lt, comparison .gt]) := by
  decide

/-- A symbol is read where no longer one is. -/
theorem symbol?_append {spelling rest : List Char} {t : Token} (h : (spelling, t) ∈ symbols)
    (hends : Ends t rest) : symbol? (spelling ++ rest) = some (spelling, t) := by
  obtain ⟨earlier, later, hsplit⟩ := List.append_of_mem h
  have hlongest := symbols_longest
  rw [hsplit, List.pairwise_append] at hlongest
  rw [symbol?, List.find?_eq_some_iff_append]
  refine ⟨List.isPrefixOf_iff_prefix.mpr (List.prefix_append _ _), earlier, later, hsplit, ?_⟩
  intro longer hlonger
  -- an earlier symbol that the text begins with is a longer one, which goes on with `=`
  obtain ⟨hnot, hgoes⟩ := hlongest.2.2 longer hlonger _ List.mem_cons_self
  rw [Bool.not_eq_true', ← Bool.not_eq_true, List.isPrefixOf_iff_prefix]
  intro hprefix
  obtain hshorter | hshorter :=
    List.prefix_or_prefix_of_prefix hprefix (List.prefix_append spelling rest)
  · exact hnot hshorter
  · obtain ⟨hlonger', hopen⟩ := hgoes hshorter
    rw [hlonger', List.prefix_append_right_inj] at hprefix
    obtain ⟨more, rfl⟩ := hprefix
    have hequals : '=' ∉ (['='] ++ more).head? := by
      simp only [List.mem_cons, List.not_mem_nil, or_false] at hopen
      obtain rfl | rfl | rfl := hopen <;> exact hends
    exact hequals rfl

theorem isIdentifierChar_of_startsWord {c : Char} (h : startsWord c = true) :
    isIdentifierChar c = true := by
  simp only [startsWord, Bool.or_eq_true] at h
  simp only [isIdentifierChar, Char.isAlphanum, Bool.or_eq_true]
  tauto

theorem not_isDigit_of_startsWord {c : Char} (h : startsWord c = true) : c.isDigit = false := by
  by_contra hdigit
  have hcode := isDigit_iff.mp (by simpa using hdigit)
  simp only [startsWord, Char.isAlpha, Bool.or_eq_true, isUpper_iff, isLower_iff, beq_iff_eq] at h
  obtain ((hupper | hlower) | rfl) | rfl := h
  · omega
  · omega
  · exact absurd hdigit (by decide)
  · exact absurd hdigit (by decide)

/-- A spelling is read as its token where what follows does not go on with it. -/
theorem read?_of_spells {t : Token} {spelling rest : List Char} (h : Spells t spelling)
    (hends : Ends t rest) (position : Nat) :
    read? position (spelling ++ rest) = .ok (spelling, t) := by
  cases h with
  | symbol mem => rw [read?.eq_def, symbol?_append mem hends]
  | @word name named =>
    obtain ⟨⟨c, hc, hfirst⟩, heach, -⟩ := isName_iff.mp named
    obtain ⟨more, hname⟩ := List.head?_eq_some_iff.mp hc
    obtain ⟨htake, -⟩ := takeWhile_run heach hends
    have hnone : symbol? (name.toList ++ rest) = none := by
      rw [hname, List.cons_append]
      exact symbol?_eq_none (isIdentifierChar_of_startsWord hfirst) _
    rw [read?.eq_def, hnone]
    simp only [htake, String.ofList_toList, ofWord_of_isName named]
    simp [hname, not_isDigit_of_startsWord hfirst, hfirst]
  | @integer _ n some each value bound =>
    obtain ⟨c, more, rfl⟩ := List.exists_cons_of_ne_nil some
    obtain ⟨htake, hdrop⟩ := takeWhile_run each hends.1
    have hdigit : c.isDigit = true := each c List.mem_cons_self
    have hnumber : number? position (c :: more ++ rest) = .ok (c :: more, .integer n) := by
      simp only [number?, htake, hdrop, hends.2, List.isEmpty_nil, if_true, value, bound]
    rw [read?.eq_def, List.cons_append, symbol?_eq_none (isIdentifierChar_of_isDigit hdigit)]
    simpa [hdigit] using hnumber

/-! ### Texts -/

theorem symbols_begin : ∀ s ∈ symbols, s.1 ≠ [] ∧ s.1.head?.any isBlank = false ∧
    s.1.head?.any isIdentifierChar = false ∧ (s.1.head? = some '.' → s = (['.'], dot)) ∧
    (s.1.head? = some '=' → s.2 = arrow ∨ s.2 = comparison .eq) := by
  decide

theorem Spells.ne_nil {t : Token} {spelling : List Char} (h : Spells t spelling) :
    spelling ≠ [] := by
  cases h with
  | symbol mem => exact (symbols_begin _ mem).1
  | word named =>
    obtain ⟨⟨c, hc, -⟩, -⟩ := isName_iff.mp named
    rintro hnil
    exact absurd hc (by simp [hnil])
  | integer some each value bound => exact some

section Begins

variable {t : Token} {c : Char} {more : List Char}

/-- A spelling is a symbol, or begins with the letter of a name or with a digit. -/
theorem Spells.begins (h : Spells t (c :: more)) : (c :: more, t) ∈ symbols ∨
    (startsWord c = true ∧ ∃ name, t = .word name) ∨ (c.isDigit = true ∧ ∃ n, t = .integer n) := by
  generalize hspelling : c :: more = spelling at h
  cases h with
  | symbol mem => exact .inl mem
  | @word name named =>
    obtain ⟨⟨first, hfirst, hstarts⟩, -⟩ := isName_iff.mp named
    rw [← hspelling] at hfirst
    obtain rfl : c = first := by simpa using hfirst
    exact .inr (.inl ⟨hstarts, name, rfl⟩)
  | @integer _ n some each value bound =>
    subst hspelling
    exact .inr (.inr ⟨each c List.mem_cons_self, n, rfl⟩)

theorem not_isBlank_of_isIdentifierChar (h : isIdentifierChar c = true) : isBlank c = false := by
  simp only [isIdentifierChar, Char.isAlphanum, Char.isAlpha, Bool.or_eq_true, isUpper_iff,
    isLower_iff, isDigit_iff, beq_iff_eq] at h
  obtain ((((hcode | hcode) | hcode) | rfl) | rfl) := h
  · exact not_isBlank_of_toNat (by omega) (by omega)
  · exact not_isBlank_of_toNat (by omega) (by omega)
  · exact not_isBlank_of_toNat (by omega) (by omega)
  · decide
  · decide

theorem Spells.not_isBlank (h : Spells t (c :: more)) : isBlank c = false := by
  obtain hmem | ⟨hfirst, -⟩ | ⟨hfirst, -⟩ := h.begins
  · simpa using (symbols_begin _ hmem).2.1
  · exact not_isBlank_of_isIdentifierChar (isIdentifierChar_of_startsWord hfirst)
  · exact not_isBlank_of_isDigit hfirst

/-- Only names and numbers begin with characters of a name. -/
theorem Spells.of_isIdentifierChar (h : Spells t (c :: more)) (hc : isIdentifierChar c = true) :
    (∃ name, t = .word name) ∨ ∃ n, t = .integer n := by
  obtain hmem | ⟨-, hword⟩ | ⟨-, hinteger⟩ := h.begins
  · have hfirst : isIdentifierChar c = false := by simpa using (symbols_begin _ hmem).2.2.1
    exact absurd (hc.symm.trans hfirst) (by simp)
  · exact .inl hword
  · exact .inr hinteger

/-- Only numbers begin with digits. -/
theorem Spells.of_isDigit (h : Spells t (c :: more)) (hc : c.isDigit = true) :
    ∃ n, t = .integer n := by
  obtain hmem | ⟨hfirst, -⟩ | ⟨-, hinteger⟩ := h.begins
  · have hfirst : isIdentifierChar c = false := by simpa using (symbols_begin _ hmem).2.2.1
    exact absurd ((isIdentifierChar_of_isDigit hc).symm.trans hfirst) (by simp)
  · exact absurd (hc.symm.trans (not_isDigit_of_startsWord hfirst)) (by simp)
  · exact hinteger

theorem Spells.mem_symbols (h : Spells t (c :: more)) (hc : isIdentifierChar c = false) :
    (c :: more, t) ∈ symbols := by
  obtain hmem | ⟨hfirst, -⟩ | ⟨hfirst, -⟩ := h.begins
  · exact hmem
  · exact absurd ((isIdentifierChar_of_startsWord hfirst).symm.trans hc) (by simp)
  · exact absurd ((isIdentifierChar_of_isDigit hfirst).symm.trans hc) (by simp)

theorem Spells.of_point (h : Spells t ('.' :: more)) : t = dot ∧ more = [] := by
  have heq := (symbols_begin _ (h.mem_symbols (by decide))).2.2.2.1 rfl
  obtain ⟨hspelling, rfl⟩ := Prod.mk.inj heq
  exact ⟨rfl, (List.cons.inj hspelling).2⟩

theorem Spells.of_equals (h : Spells t ('=' :: more)) : t = arrow ∨ t = comparison .eq :=
  (symbols_begin _ (h.mem_symbols (by decide))).2.2.2.2 rfl

/-- A text begins with white space or with the spelling of its first token. -/
theorem Spaced.head {ts : List Token} (h : Spaced ts (c :: more)) : isBlank c = true ∨
    ∃ t ts' spelling rest, ts = t :: ts' ∧ Spells t (c :: spelling) ∧ more = spelling ++ rest ∧
      Spaced ts' rest := by
  generalize hcs : c :: more = cs at h
  cases h with
  | nil white =>
    subst hcs
    exact .inl (white c List.mem_cons_self)
  | @cons before spelling rest t ts white spelled behind =>
    cases before with
    | cons blank before =>
      obtain ⟨rfl, -⟩ := List.cons.inj hcs
      exact .inl (white c List.mem_cons_self)
    | nil =>
      obtain ⟨first, spelling', rfl⟩ := List.exists_cons_of_ne_nil spelled.ne_nil
      obtain ⟨rfl, rfl⟩ := List.cons.inj hcs
      exact .inr ⟨t, ts, spelling', rest, rfl, spelled, rfl, behind⟩

end Begins

/-- A text does not begin with a character of a name where its first token is neither a name nor a
number. -/
theorem Spaced.head_not_isIdentifierChar {ts : List Token} {cs : List Char} (h : Spaced ts cs)
    (hfirst : ∀ t ∈ ts.head?, (∀ name, t ≠ .word name) ∧ ∀ n, t ≠ .integer n) :
    ∀ c ∈ cs.head?, isIdentifierChar c = false := by
  intro c hc
  obtain ⟨more, rfl⟩ := List.head?_eq_some_iff.mp hc
  by_contra hname
  rw [Bool.not_eq_false] at hname
  obtain hblank | ⟨t, ts, spelling, rest, rfl, hspelled, -, -⟩ := h.head
  · exact absurd (hblank.symm.trans (not_isBlank_of_isIdentifierChar hname)) (by simp)
  · obtain ⟨hword, hinteger⟩ := hfirst t rfl
    obtain ⟨name, rfl⟩ | ⟨n, rfl⟩ := hspelled.of_isIdentifierChar hname
    · exact hword name rfl
    · exact hinteger n rfl

/-- A text does not begin with a point and a digit where names only follow points. -/
theorem Spaced.fraction_eq_nil {ts : List Token} {cs : List Char} (h : Spaced ts cs)
    (chain : ts.IsChain (mayPrecede · ·)) : fraction cs = [] := by
  rw [fraction.eq_def]
  split
  · obtain hblank | ⟨t, ts, spelling, rest, rfl, hspelled, rfl, hrest⟩ := h.head
    · exact absurd hblank (by decide)
    -- a name follows the point, so no digit does
    obtain ⟨rfl, rfl⟩ := hspelled.of_point
    have hdigits : rest.takeWhile Char.isDigit = [] := by
      rw [List.takeWhile_eq_nil_iff]
      intro hlength hdigit
      obtain ⟨c, more, rfl⟩ := List.exists_cons_of_length_pos hlength
      obtain hblank | ⟨t, ts, _, _, rfl, hnext, -, -⟩ := hrest.head
      · exact absurd (hblank.symm.trans (not_isBlank_of_isDigit hdigit)) (by simp)
      · obtain ⟨n, rfl⟩ := hnext.of_isDigit hdigit
        exact absurd chain.rel (by simp [mayPrecede])
    simp [hdigits]
  · rfl

theorem Spaced.head_ne_equals {ts : List Token} {cs : List Char} (h : Spaced ts cs)
    (hfirst : ∀ t ∈ ts.head?, t ≠ arrow ∧ t ≠ comparison .eq) : '=' ∉ cs.head? := by
  intro hc
  obtain ⟨more, rfl⟩ := List.head?_eq_some_iff.mp hc
  obtain hblank | ⟨t, ts, spelling, rest, rfl, hspelled, -, -⟩ := h.head
  · exact absurd hblank (by decide)
  · obtain ⟨harrow, hequal⟩ := hfirst t rfl
    exact hspelled.of_equals.elim harrow hequal

/-- Behind a token that may precede the first one of a text, the text does not go on with it. -/
theorem ends_of_spaced {t : Token} {ts : List Token} {cs : List Char} (h : Spaced ts cs)
    (chain : (t :: ts).IsChain (mayPrecede · ·)) : Ends t cs := by
  have hfirst : ∀ t' ∈ ts.head?, mayPrecede t t' = true := fun t' ht' => chain.rel_head? ht'
  have hne {t' : Token} (hnot : mayPrecede t t' = false) : ∀ t'' ∈ ts.head?, t'' ≠ t' := by
    rintro _ ht rfl
    exact absurd ((hfirst _ ht).symm.trans hnot) (by simp)
  cases t with
  | word name =>
    exact h.head_not_isIdentifierChar fun t' ht' =>
      ⟨fun _ => hne rfl t' ht', fun _ => hne rfl t' ht'⟩
  | integer n =>
    refine ⟨fun c hc => ?_, h.fraction_eq_nil chain.tail⟩
    by_contra hdigit
    have hname := h.head_not_isIdentifierChar
      (fun t' ht' => ⟨fun _ => hne rfl t' ht', fun _ => hne rfl t' ht'⟩) c hc
    exact absurd (isIdentifierChar_of_isDigit (by simpa using hdigit)) (by simp [hname])
  | bang => exact h.head_ne_equals fun t' ht' => ⟨hne rfl t' ht', hne rfl t' ht'⟩
  | comparison op => exact h.head_ne_equals fun t' ht' => ⟨hne rfl t' ht', hne rfl t' ht'⟩
  | _ => trivial

/-- One step of the scanner takes a spelling, and the white space in front of it. -/
theorem scanFrom_spelling {t : Token} {before spelling rest : List Char} (white : Blanks before)
    (spelled : Spells t spelling) (hends : Ends t rest) (position fuel : Nat) :
    scanFrom position (before ++ (spelling ++ rest)) (fuel + 1) =
      scanFrom (position + byteLength before + byteLength spelling) rest fuel >>= fun toks =>
        pure (⟨position + byteLength before, t⟩ :: toks) := by
  obtain ⟨c, more, rfl⟩ := List.exists_cons_of_ne_nil spelled.ne_nil
  have hink : ∀ c' ∈ (c :: more ++ rest).head?, isBlank c' = false := by
    simpa using spelled.not_isBlank
  obtain ⟨htake, hdrop⟩ := takeWhile_run white hink
  rw [scanFrom, htake, trimStart, hdrop]
  simp only [List.cons_append]
  rw [← List.cons_append, read?_of_spells spelled hends, ok_bind, List.drop_left]

theorem scanFrom_of_spaced {ts : List Token} {cs : List Char} (h : Spaced ts cs)
    (chain : ts.IsChain (mayPrecede · ·)) {fuel : Nat} (hfuel : ts.length ≤ fuel) (position : Nat) :
    ∃ toks, scanFrom position cs fuel = .ok toks ∧ toks.map Placed.token = ts := by
  induction h generalizing fuel position with
  | nil white =>
    cases fuel with
    | zero => exact ⟨[], rfl, rfl⟩
    | succ fuel =>
      refine ⟨[], ?_, rfl⟩
      simp only [scanFrom, trimStart_of_blank white]
  | @cons before spelling rest t ts white spelled behind ih =>
    -- each token takes one unit of fuel, and each spelling at least one character
    obtain ⟨fuel, rfl⟩ := Nat.exists_eq_add_of_le' (Nat.le_trans (Nat.le_add_left 1 _) hfuel)
    obtain ⟨toks, htoks, hts⟩ := ih chain.tail (Nat.le_of_succ_le_succ hfuel)
      (position + byteLength before + byteLength spelling)
    refine ⟨⟨position + byteLength before, t⟩ :: toks, ?_, congrArg (t :: ·) hts⟩
    rw [scanFrom_spelling white spelled (ends_of_spaced behind chain)]
    rw [htoks, ok_bind]
    rfl

theorem Spaced.length_le {ts : List Token} {cs : List Char} (h : Spaced ts cs) :
    ts.length ≤ cs.length := by
  induction h with
  | nil white => exact Nat.zero_le _
  | cons white spelled behind ih =>
    have := List.length_pos_of_ne_nil spelled.ne_nil
    simp only [List.length_cons, List.length_append]
    omega

/-- A text of tokens, each of which may precede the next one, is scanned as these tokens. -/
theorem scan_of_spaced {ts : List Token} {cs : List Char} (h : Spaced ts cs)
    (chain : ts.IsChain (mayPrecede · ·)) :
    ∃ toks, scan cs = .ok toks ∧ toks.map Placed.token = ts :=
  scanFrom_of_spaced h chain h.length_le 0

/-- Tokens that have spellings have a text. -/
theorem exists_spaced {ts : List Token} (h : ∀ t ∈ ts, ∃ spelling, Spells t spelling) :
    ∃ cs, Spaced ts cs := by
  induction ts with
  | nil => exact ⟨[], .nil blanks_nil⟩
  | cons t ts ih =>
    obtain ⟨⟨spelling, hspelling⟩, hrest⟩ := List.forall_mem_cons.mp h
    obtain ⟨cs, hcs⟩ := ih hrest
    exact ⟨[] ++ (spelling ++ cs), .cons blanks_nil hspelling hcs⟩

end Token

end TypedSql
