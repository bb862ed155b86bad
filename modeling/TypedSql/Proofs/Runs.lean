/-
Runs of characters, and texts taken apart.

What a scanner takes as long as it goes: a run of characters of one kind, in front of the end or of
a character of another kind.

* `takeWhile_run` — a run is taken as a whole, and nothing more;
* `trimStart_append`, `trim_append` — white space around a text is trimmed away;
* `pieces_iff` — a text is split into its pieces between marks;
* `readNumeral?_eq_some_iff` — the numerals below a bound.
-/
import Mathlib
import TypedSql.Text.Blank
import TypedSql.Text.Letter
import TypedSql.Text.Numeral
import TypedSql.Text.Split

namespace TypedSql

/-- A run of characters of a kind, in front of one that is of another. -/
theorem takeWhile_run {p : Char → Bool} {run rest : List Char} (hrun : ∀ c ∈ run, p c = true)
    (hrest : ∀ c ∈ rest.head?, p c = false) :
    (run ++ rest).takeWhile p = run ∧ (run ++ rest).dropWhile p = rest := by
  rw [List.takeWhile_append_of_pos hrun, List.dropWhile_append_of_pos hrun]
  cases rest with
  | nil => simp
  | cons c rest => simp [hrest c rfl]

namespace Text

/-! ### Characters by their codes -/

theorem isUpper_iff {c : Char} : c.isUpper = true ↔ 65 ≤ c.toNat ∧ c.toNat ≤ 90 := by
  rw [Char.isUpper, decide_eq_true_eq, ge_iff_le, UInt32.le_iff_toNat_le, UInt32.le_iff_toNat_le]
  rfl

theorem isLower_iff {c : Char} : c.isLower = true ↔ 97 ≤ c.toNat ∧ c.toNat ≤ 122 := by
  rw [Char.isLower, Bool.and_eq_true, decide_eq_true_eq, decide_eq_true_eq, ge_iff_le,
    UInt32.le_iff_toNat_le, UInt32.le_iff_toNat_le]
  rfl

theorem isDigit_iff {c : Char} : c.isDigit = true ↔ 48 ≤ c.toNat ∧ c.toNat ≤ 57 := by
  rw [Char.isDigit, Bool.and_eq_true, decide_eq_true_eq, decide_eq_true_eq, ge_iff_le,
    UInt32.le_iff_toNat_le, UInt32.le_iff_toNat_le]
  rfl

theorem le_iff_toNat_le {c d : Char} : c ≤ d ↔ c.toNat ≤ d.toNat := by
  rw [Char.le_def, UInt32.le_iff_toNat_le]
  rfl

theorem isIdentifierChar_of_isDigit {c : Char} (h : c.isDigit = true) :
    isIdentifierChar c = true := by
  simp [isIdentifierChar, Char.isAlphanum, h]

/-- None of the visible characters of ASCII is white space. -/
theorem not_isBlank_of_toNat {c : Char} (hlow : 32 < c.toNat) (hhigh : c.toNat < 133) :
    isBlank c = false := by
  by_contra hblank
  obtain ⟨range, hmem, hfirst, hlast⟩ :
      ∃ range ∈ blankRanges, range.1 ≤ c.toNat ∧ c.toNat ≤ range.2 := by
    simpa [isBlank] using hblank
  have hapart : ∀ range ∈ blankRanges, range.2 ≤ 32 ∨ 133 ≤ range.1 := by decide
  have hrange := hapart range hmem
  omega

theorem not_isBlank_of_isDigit {c : Char} (h : c.isDigit = true) : isBlank c = false := by
  have hcode := isDigit_iff.mp h
  exact not_isBlank_of_toNat (by omega) (by omega)

/-! ### White space -/

/-- A text of white space. -/
def Blanks (cs : List Char) : Prop :=
  ∀ c ∈ cs, isBlank c = true

theorem blanks_nil : Blanks [] :=
  fun _ h => absurd h List.not_mem_nil

theorem blanks_space : Blanks [' '] :=
  List.forall_mem_singleton.mpr (by decide)

theorem Blanks.append {cs ds : List Char} (h : Blanks cs) (h' : Blanks ds) : Blanks (cs ++ ds) :=
  List.forall_mem_append.mpr ⟨h, h'⟩

theorem blanks_takeWhile (cs : List Char) : Blanks (cs.takeWhile isBlank) :=
  fun _ hc => List.mem_takeWhile_imp hc

theorem all_isBlank_iff {cs : List Char} : cs.all isBlank = true ↔ Blanks cs :=
  List.all_eq_true

/-- A text is white space and what is left when that is trimmed away. -/
theorem takeWhile_append_trimStart (cs : List Char) : cs.takeWhile isBlank ++ trimStart cs = cs :=
  List.takeWhile_append_dropWhile

theorem trimStart_append {before rest : List Char} (hbefore : Blanks before)
    (hrest : ∀ c ∈ rest.head?, isBlank c = false) : trimStart (before ++ rest) = rest :=
  (takeWhile_run hbefore hrest).2

theorem trimEnd_append {core after : List Char} (hafter : Blanks after)
    (hcore : ∀ c ∈ core.getLast?, isBlank c = false) : trimEnd (core ++ after) = core := by
  have hrun : ∀ c ∈ after.reverse, isBlank c = true := fun c hc => hafter c (List.mem_reverse.mp hc)
  rw [trimEnd, List.reverse_append, (takeWhile_run hrun (by simpa using hcore)).2,
    List.reverse_reverse]

theorem trim_append {before core after : List Char} (hbefore : Blanks before)
    (hafter : Blanks after) (hcore : core ≠ []) (hfirst : ∀ c ∈ core.head?, isBlank c = false)
    (hlast : ∀ c ∈ core.getLast?, isBlank c = false) :
    trim (before ++ (core ++ after)) = core := by
  have hhead : (core ++ after).head? = core.head? := List.head?_append_of_ne_nil _ hcore
  rw [trim, trimStart_append hbefore (hhead ▸ hfirst), trimEnd_append hafter hlast]

/-- A text is what trimming leaves of it, with white space around. -/
theorem exists_trim (cs : List Char) :
    ∃ before after, Blanks before ∧ Blanks after ∧ cs = before ++ (trim cs ++ after) := by
  refine ⟨cs.takeWhile isBlank, ((trimStart cs).reverse.takeWhile isBlank).reverse,
    blanks_takeWhile cs, fun c hc => List.mem_takeWhile_imp (List.mem_reverse.mp hc), ?_⟩
  rw [trim, trimEnd, ← List.reverse_append, List.takeWhile_append_dropWhile, List.reverse_reverse,
    takeWhile_append_trimStart]

/-! ### Pieces between marks -/

/-- The pieces of a text between marks. -/
structure Pieces (mark : Char) (text : List Char) (pieces : List (List Char)) : Prop where
  some : pieces ≠ []
  each : ∀ piece ∈ pieces, mark ∉ piece
  whole : [mark].intercalate pieces = text

theorem notMem_of_mem_splitAt {mark : Char} {text piece : List Char}
    (h : piece ∈ splitAt mark text) : mark ∉ piece := by
  induction text generalizing piece with
  | nil =>
    obtain rfl := List.mem_singleton.mp h
    exact List.not_mem_nil
  | cons c rest ih =>
    rw [splitAt] at h
    split_ifs at h with hmark
    · obtain rfl | h := List.mem_cons.mp h
      · exact List.not_mem_nil
      · exact ih h
    · have hc : ∀ {piece : List Char}, mark ∉ piece → mark ∉ c :: piece := fun hpiece =>
        List.not_mem_cons_of_ne_of_not_mem (Ne.symm hmark) hpiece
      split at h
      · obtain rfl := List.mem_singleton.mp h
        exact hc List.not_mem_nil
      · rename_i first more hsplit
        rw [hsplit] at ih
        obtain rfl | h := List.mem_cons.mp h
        · exact hc (ih List.mem_cons_self)
        · exact ih (List.mem_cons_of_mem _ h)

theorem splitAt_of_notMem {mark : Char} {text : List Char} (h : mark ∉ text) :
    splitAt mark text = [text] := by
  induction text with
  | nil => rfl
  | cons c rest ih =>
    obtain ⟨hc, hrest⟩ := List.ne_and_not_mem_of_not_mem_cons h
    rw [splitAt, if_neg (Ne.symm hc), ih hrest]

theorem splitAt_append {mark : Char} {piece : List Char} (h : mark ∉ piece) (rest : List Char) :
    splitAt mark (piece ++ mark :: rest) = piece :: splitAt mark rest := by
  induction piece with
  | nil => rw [List.nil_append, splitAt, if_pos rfl]
  | cons c piece ih =>
    obtain ⟨hc, hpiece⟩ := List.ne_and_not_mem_of_not_mem_cons h
    rw [List.cons_append, splitAt, if_neg (Ne.symm hc), ih hpiece]

/-- A text has its pieces in one way only. -/
theorem pieces_iff {mark : Char} {text : List Char} {pieces : List (List Char)} :
    Pieces mark text pieces ↔ splitAt mark text = pieces := by
  constructor
  · rintro ⟨hsome, heach, rfl⟩
    induction pieces with
    | nil => exact absurd rfl hsome
    | cons first more ih =>
      obtain ⟨hfirst, hmore⟩ := List.forall_mem_cons.mp heach
      cases more with
      | nil => simpa using splitAt_of_notMem hfirst
      | cons second more =>
        have hrest := ih (List.cons_ne_nil second more) hmore
        rw [List.intercalate_cons_cons, List.append_assoc, List.singleton_append,
          splitAt_append hfirst, hrest]
  · rintro rfl
    exact ⟨splitAt_ne_nil mark text, fun _ => notMem_of_mem_splitAt, intercalate_splitAt mark text⟩

/-! ### Numerals -/

theorem digitsValue_toDigits (n : Nat) : digitsValue (Nat.toDigits 10 n) = n :=
  Nat.ofDigitChars_toDigits (by decide) (by decide)

/-- A numeral below a bound: digits, with or without a plus sign. -/
theorem readNumeral?_eq_some_iff {bound n : Nat} {cs : List Char} :
    readNumeral? bound cs = some n ↔ ∃ sign digits, (sign = [] ∨ sign = ['+']) ∧ digits ≠ [] ∧
      (∀ c ∈ digits, c.isDigit = true) ∧ digitsValue digits = n ∧ n < bound ∧
        cs = sign ++ digits := by
  have hread : readNumeral? bound cs = some n ↔ dropPlus cs ≠ [] ∧
      (∀ c ∈ dropPlus cs, c.isDigit = true) ∧ digitsValue (dropPlus cs) = n ∧ n < bound := by
    simp only [readNumeral?, Bool.or_eq_true, List.isEmpty_iff, Bool.not_eq_true']
    rw [← List.all_eq_true]
    split_ifs with hbad hvalue
    · exact iff_of_false (by simp) fun h => hbad.elim h.1 (by simp [h.2.1])
    · rw [not_or, Bool.not_eq_false] at hbad
      rw [Option.some.injEq]
      exact ⟨fun h => ⟨hbad.1, hbad.2, h, h ▸ hvalue⟩, fun h => h.2.2.1⟩
    · exact iff_of_false (by simp) fun h => hvalue (h.2.2.1 ▸ h.2.2.2)
  rw [hread]
  constructor
  · rintro ⟨hsome, heach, hvalue, hbound⟩
    by_cases hplus : ∃ rest, cs = '+' :: rest
    · obtain ⟨rest, rfl⟩ := hplus
      exact ⟨['+'], rest, .inr rfl, hsome, heach, hvalue, hbound, rfl⟩
    · have hdrop : dropPlus cs = cs := dropPlus.eq_2 cs fun rest h => hplus ⟨rest, h⟩
      rw [hdrop] at hsome heach hvalue
      exact ⟨[], cs, .inl rfl, hsome, heach, hvalue, hbound, rfl⟩
  · rintro ⟨sign, digits, hsign, hsome, heach, hvalue, hbound, rfl⟩
    have hdrop : dropPlus (sign ++ digits) = digits := by
      obtain rfl | rfl := hsign
      · refine dropPlus.eq_2 digits fun rest h => ?_
        rw [h] at heach
        exact absurd (heach '+' List.mem_cons_self) (by decide)
      · rfl
    rw [hdrop]
    exact ⟨hsome, heach, hvalue, hbound⟩

end Text

end TypedSql
