/-
The grammar of type declarations, and that the reader accepts exactly this grammar.

A declaration is a name, a list of arguments in parentheses, and the words `unsigned` and `zerofill`
in this order, each of them but the name optional, with white space around them (`Spelled`). White
space may be divided among its places in several ways, but the name, the arguments and the sign are
the same in each.

* `read?_of_spelled`, `spelled_of_read?` — the reader takes apart what the grammar puts together;
* `argument?_eq_some_iff` — the arguments that are numbers;
* `read_exact` — a text is read if and only if the grammar spells it with a name of a family, and
  means what the table of families says.
-/
import TypedSql.Proofs.Registration
import TypedSql.Proofs.Runs
import TypedSql.Types.Declaration

namespace TypedSql

namespace Text

/-! ### Letters and white space -/

theorem not_isBlank_of_foldsToLetter {c : Char} (h : foldsToLetter c = true) :
    isBlank c = false := by
  by_cases hlong : c = '\u017F'
  · subst hlong
    decide
  by_cases hkelvin : c = '\u212A'
  · subst hkelvin
    decide
  rw [foldsToLetter, foldCase, if_neg hlong, if_neg hkelvin, Bool.and_eq_true, decide_eq_true_eq,
    decide_eq_true_eq, le_iff_toNat_le, le_iff_toNat_le] at h
  by_cases hupper : c.isUpper = true
  · have hcode := isUpper_iff.mp hupper
    exact not_isBlank_of_toNat (by omega) (by omega)
  · rw [Char.toLower_eq_of_not_isUpper hupper] at h
    have ha : 'a'.toNat = 97 := rfl
    have hz : 'z'.toNat = 122 := rfl
    exact not_isBlank_of_toNat (by omega) (by omega)

/-- Spellings of a word of small letters are made of letters. -/
theorem foldsToLetter_of_map {cs word : List Char} (h : cs.map foldCase = word)
    (hword : ∀ c ∈ word, 'a' ≤ c ∧ c ≤ 'z') : ∀ c ∈ cs, foldsToLetter c = true := by
  intro c hc
  have hfold : foldCase c ∈ word := h ▸ List.mem_map_of_mem hc
  simpa [foldsToLetter] using hword _ hfold

end Text

namespace Declaration

open Text

/-! ### The grammar -/

/-- An optional word behind white space, in any spelling that folds to it, and whether it is
there. -/
inductive Modifier (word : String) : List Char → Bool → Prop
  | absent : Modifier word [] false
  | present {gap spelling : List Char} (some : gap ≠ []) (white : Blanks gap)
      (folds : spelling.map foldCase = word.toList) : Modifier word (gap ++ spelling) true

/-- An optional list of arguments in parentheses, none of which holds a closing one. -/
inductive ArgumentList : List Char → Option (List Char) → Prop
  | absent : ArgumentList [] none
  | present {inside : List Char} (closed : ')' ∉ inside) :
      ArgumentList ('(' :: (inside ++ [')'])) (some inside)

/-- What stands behind the arguments of a declaration: whether `unsigned` is there. -/
inductive Tail : List Char → Bool → Prop
  | intro {sign fill after : List Char} {unsigned zerofill : Bool}
      (signed : Modifier "unsigned" sign unsigned) (filled : Modifier "zerofill" fill zerofill)
      (back : Blanks after) : Tail (sign ++ (fill ++ after)) unsigned

/-- A declaration, its name, its arguments and whether it is unsigned. -/
inductive Spelled : List Char → List Char → Option (List Char) → Bool → Prop
  | intro {before name between list tail : List Char} {arguments : Option (List Char)}
      {unsigned : Bool} (front : Blanks before) (gap : Blanks between)
      (listed : ArgumentList list arguments) (modified : Tail tail unsigned) :
      Spelled (before ++ (name ++ (between ++ (list ++ tail)))) name arguments unsigned

/-! ### Modifiers -/

/-- The two words behind a declaration are made of small letters. -/
def IsModifier (word : String) : Prop :=
  word.toList ≠ [] ∧ ∀ c ∈ word.toList, 'a' ≤ c ∧ c ≤ 'z'

theorem isModifier_unsigned : IsModifier "unsigned" :=
  ⟨by simp, by simp⟩

theorem isModifier_zerofill : IsModifier "zerofill" :=
  ⟨by simp, by simp⟩

/-- A spelling of a word begins with a spelling of the word's first letter. -/
theorem head_spelling {first : Char} {more spelling : List Char}
    (folds : spelling.map foldCase = first :: more) (rest : List Char) :
    (spelling ++ rest).head?.map foldCase = some first := by
  obtain ⟨c, cs, rfl, hc, -⟩ := List.map_eq_cons_iff.mp folds
  exact congrArg some hc

theorem head_spelling_not_blank {word : String} (hword : IsModifier word) {spelling : List Char}
    (folds : spelling.map foldCase = word.toList) (rest : List Char) :
    ∀ c ∈ (spelling ++ rest).head?, isBlank c = false := by
  intro c hc
  cases spelling with
  | nil => exact absurd folds.symm hword.1
  | cons first more =>
    obtain rfl : first = c := by simpa using hc
    exact not_isBlank_of_foldsToLetter (foldsToLetter_of_map folds hword.2 first (by simp))

/-- A word is taken where it stands behind white space, in any spelling. -/
theorem afterWord?_eq_some_iff {word : String} (hword : IsModifier word) {cs rest : List Char} :
    afterWord? word cs = some rest ↔ ∃ gap spelling, gap ≠ [] ∧ Blanks gap ∧
      spelling.map foldCase = word.toList ∧ cs = gap ++ (spelling ++ rest) := by
  constructor
  · intro h
    rw [afterWord?] at h
    split_ifs at h with htaken
    rw [Bool.and_eq_true, decide_eq_true_eq, beq_iff_eq] at htaken
    obtain rfl := Option.some.inj h
    refine ⟨cs.takeWhile isBlank, (trimStart cs).take word.toList.length, ?_, blanks_takeWhile cs,
      htaken.2, ?_⟩
    · rintro hnil
      have hall := takeWhile_append_trimStart cs
      rw [hnil, List.nil_append] at hall
      rw [hall] at htaken
      exact absurd htaken.1 (Nat.lt_irrefl _)
    · rw [List.take_append_drop, takeWhile_append_trimStart]
  · rintro ⟨gap, spelling, hgap, hwhite, hfolds, rfl⟩
    have hlength : spelling.length = word.toList.length := by
      rw [← hfolds, List.length_map]
    have htrim := trimStart_append hwhite (head_spelling_not_blank hword hfolds rest)
    have hshorter : (spelling ++ rest).length < (gap ++ (spelling ++ rest)).length := by
      have := List.length_pos_of_ne_nil hgap
      simp only [List.length_append]
      omega
    rw [afterWord?, htrim]
    simp only [← hlength, hshorter, decide_true, List.take_left, List.drop_left, hfolds,
      beq_self_eq_true, Bool.and_self, if_true]

theorem Modifier.prepend {word : String} {cs gap : List Char} (h : Modifier word cs true)
    (hgap : Blanks gap) : Modifier word (gap ++ cs) true := by
  cases h with
  | present some white folds =>
    rw [← List.append_assoc]
    exact .present (by simp [some]) (hgap.append white) folds

/-- Nothing but white space and the word `zerofill` is left. -/
theorem endsAfterZerofill_iff {cs : List Char} : endsAfterZerofill cs = true ↔
    ∃ fill zerofill after,
      Modifier "zerofill" fill zerofill ∧ Blanks after ∧ cs = fill ++ after := by
  rw [endsAfterZerofill, Bool.or_eq_true, all_isBlank_iff, Option.any_eq_true]
  simp only [all_isBlank_iff]
  constructor
  · rintro (hblank | ⟨rest, hrest, hblank⟩)
    · exact ⟨[], false, cs, .absent, hblank, rfl⟩
    · obtain ⟨gap, spelling, hgap, hwhite, hfolds, rfl⟩ :=
        (afterWord?_eq_some_iff isModifier_zerofill).mp hrest
      exact ⟨gap ++ spelling, true, rest, .present hgap hwhite hfolds, hblank,
        (List.append_assoc _ _ _).symm⟩
  · rintro ⟨fill, zerofill, after, hfill, hblank, rfl⟩
    cases hfill with
    | absent => exact .inl hblank
    | present some white folds =>
      exact .inr ⟨after, (afterWord?_eq_some_iff isModifier_zerofill).mpr
        ⟨_, _, some, white, folds, List.append_assoc _ _ _⟩, hblank⟩

/-- The word `unsigned` is not read where only `zerofill` stands. -/
theorem afterWord?_unsigned_eq_none {fill after : List Char} {zerofill : Bool}
    (hfill : Modifier "zerofill" fill zerofill) (hafter : Blanks after) :
    afterWord? "unsigned" (fill ++ after) = none := by
  by_contra htaken
  obtain ⟨rest, hrest⟩ := Option.ne_none_iff_exists'.mp htaken
  obtain ⟨gap, spelling, -, hwhite, hfolds, heq⟩ :=
    (afterWord?_eq_some_iff isModifier_unsigned).mp hrest
  have htrim : trimStart (fill ++ after) = spelling ++ rest := by
    rw [heq]
    exact trimStart_append hwhite (head_spelling_not_blank isModifier_unsigned hfolds rest)
  have hhead := head_spelling hfolds rest
  rw [← htrim] at hhead
  cases hfill with
  | absent =>
    rw [List.nil_append, trimStart_of_blank hafter] at hhead
    exact absurd hhead (by decide)
  | present some white folds =>
    rw [List.append_assoc,
      trimStart_append white (head_spelling_not_blank isModifier_zerofill folds _),
      head_spelling folds] at hhead
    exact absurd hhead (by decide)

theorem readModifiers?_eq_some_iff {cs : List Char} {unsigned : Bool} :
    readModifiers? cs = some unsigned ↔ Tail cs unsigned := by
  constructor
  · intro h
    rw [readModifiers?] at h
    split at h
    · rename_i rest hrest
      obtain ⟨gap, spelling, hgap, hwhite, hfolds, rfl⟩ :=
        (afterWord?_eq_some_iff isModifier_unsigned).mp hrest
      split_ifs at h with hends
      obtain rfl := Option.some.inj h
      obtain ⟨fill, zerofill, after, hfill, hafter, rfl⟩ := endsAfterZerofill_iff.mp hends
      rw [← List.append_assoc]
      exact .intro (.present hgap hwhite hfolds) hfill hafter
    · split_ifs at h with hends
      obtain rfl := Option.some.inj h
      obtain ⟨fill, zerofill, after, hfill, hafter, rfl⟩ := endsAfterZerofill_iff.mp hends
      exact .intro .absent hfill hafter
  · rintro ⟨hsign, hfill, hafter⟩
    have hends := endsAfterZerofill_iff.mpr ⟨_, _, _, hfill, hafter, rfl⟩
    cases hsign with
    | absent =>
      rw [List.nil_append, readModifiers?, afterWord?_unsigned_eq_none hfill hafter]
      exact if_pos hends
    | present some white folds =>
      rw [readModifiers?, (afterWord?_eq_some_iff isModifier_unsigned).mpr
        ⟨_, _, some, white, folds, List.append_assoc _ _ _⟩]
      exact if_pos hends

/-! ### Names and arguments -/

theorem Modifier.head_isBlank {word : String} {cs rest : List Char} {given : Bool}
    (h : Modifier word cs given) (hrest : ∀ c ∈ rest.head?, isBlank c = true) :
    ∀ c ∈ (cs ++ rest).head?, isBlank c = true := by
  cases h with
  | absent => exact hrest
  | @present gap spelling some white folds =>
    obtain ⟨first, more, rfl⟩ := List.exists_cons_of_ne_nil some
    intro c hc
    obtain rfl : first = c := by simpa using hc
    exact white first List.mem_cons_self

theorem Tail.head_isBlank {tail : List Char} {unsigned : Bool} (h : Tail tail unsigned) :
    ∀ c ∈ tail.head?, isBlank c = true := by
  obtain ⟨hsign, hfill, hafter⟩ := h
  exact hsign.head_isBlank (hfill.head_isBlank fun c hc => hafter c (List.mem_of_mem_head? hc))

/-- A modifier is made of white space and letters. -/
theorem Modifier.notMem {word : String} (hword : IsModifier word) {cs : List Char} {given : Bool}
    (h : Modifier word cs given) {c : Char} (hblank : isBlank c = false)
    (hletter : foldsToLetter c = false) : c ∉ cs := by
  cases h with
  | absent => exact List.not_mem_nil
  | present some white folds =>
    intro hc
    obtain hc | hc := List.mem_append.mp hc
    · exact absurd ((white c hc).symm.trans hblank) (by simp)
    · exact absurd ((foldsToLetter_of_map folds hword.2 c hc).symm.trans hletter) (by simp)

theorem Tail.notMem {tail : List Char} {unsigned : Bool} (h : Tail tail unsigned) {c : Char}
    (hblank : isBlank c = false) (hletter : foldsToLetter c = false) : c ∉ tail := by
  obtain ⟨hsign, hfill, hafter⟩ := h
  simp only [List.mem_append, not_or]
  refine ⟨hsign.notMem isModifier_unsigned hblank hletter,
    hfill.notMem isModifier_zerofill hblank hletter, fun hc => ?_⟩
  exact absurd ((hafter c hc).symm.trans hblank) (by simp)

/-- White space in front of the modifiers belongs to them as well. -/
theorem Tail.prepend {tail gap : List Char} {unsigned : Bool} (h : Tail tail unsigned)
    (hgap : Blanks gap) : Tail (gap ++ tail) unsigned := by
  obtain ⟨hsign, hfill, hafter⟩ := h
  cases hsign with
  | present some white folds =>
    rw [← List.append_assoc]
    exact .intro (Modifier.prepend (.present some white folds) hgap) hfill hafter
  | absent =>
    cases hfill with
    | present some white folds =>
      rw [List.nil_append, ← List.append_assoc]
      exact .intro .absent (Modifier.prepend (.present some white folds) hgap) hafter
    | absent =>
      have h : Tail ([] ++ ([] ++ _)) false := .intro .absent .absent (hgap.append hafter)
      exact h

/-- Behind a name there is white space, or the parenthesis of the arguments, or nothing. -/
theorem head_behind_name {between list tail : List Char} {arguments : Option (List Char)}
    {unsigned : Bool} (gap : Blanks between) (listed : ArgumentList list arguments)
    (modified : Tail tail unsigned) :
    ∀ c ∈ (between ++ (list ++ tail)).head?, foldsToLetter c = false := by
  have hblank : ∀ {c : Char}, isBlank c = true → foldsToLetter c = false := by
    intro c hc
    by_contra hletter
    exact absurd (hc.symm.trans (not_isBlank_of_foldsToLetter (by simpa using hletter))) (by simp)
  intro c hc
  cases between with
  | cons first more =>
    obtain rfl : first = c := by simpa using hc
    exact hblank (gap first List.mem_cons_self)
  | nil =>
    cases listed with
    | absent => exact hblank (modified.head_isBlank c hc)
    | present closed =>
      obtain rfl : '(' = c := by simpa using hc
      decide

/-- The reader takes apart what the grammar puts together. -/
theorem read?_of_spelled {text name : List Char} {arguments : Option (List Char)} {unsigned : Bool}
    (h : Spelled text name arguments unsigned) (hname : name ≠ [])
    (hletters : ∀ c ∈ name, foldsToLetter c = true) :
    Parts.read? text = some ⟨name, arguments.getD [], unsigned⟩ := by
  obtain ⟨hfront, hgap, hlist, htail⟩ := h
  rename_i before between list tail
  have hfirst : ∀ c ∈ (name ++ (between ++ (list ++ tail))).head?, isBlank c = false := by
    obtain ⟨first, more, rfl⟩ := List.exists_cons_of_ne_nil hname
    intro c hc
    obtain rfl : first = c := by simpa using hc
    exact not_isBlank_of_foldsToLetter (hletters first List.mem_cons_self)
  obtain ⟨htake, hdrop⟩ := takeWhile_run hletters (head_behind_name hgap hlist htail)
  rw [Parts.read?, trimStart_append hfront hfirst]
  simp only [htake, hdrop, List.isEmpty_iff, hname, if_false]
  cases hlist with
  | absent =>
    -- without a parenthesis the white space behind the name goes to the modifiers
    have hopen : '(' ∉ trimStart (between ++ ([] ++ tail)) := by
      intro hmem
      obtain hmem | hmem := List.mem_append.mp ((List.dropWhile_sublist _).subset hmem)
      · exact absurd (hgap _ hmem) (by decide)
      · exact htail.notMem (by decide) (by decide) hmem
    split
    · rename_i inner hinner
      exact absurd (hinner ▸ List.mem_cons_self) hopen
    · rw [List.nil_append, readModifiers?_eq_some_iff.mpr (htail.prepend hgap)]
      rfl
  | @present inside closed =>
    have htrim : trimStart (between ++ ('(' :: (inside ++ [')']) ++ tail)) =
        '(' :: (inside ++ (')' :: tail)) := by
      rw [trimStart_append hgap (by simpa using by decide)]
      simp
    have hinside : ∀ c ∈ inside, (c != ')') = true := by
      intro c hc
      rw [bne_iff_ne]
      rintro rfl
      exact closed hc
    have hclose : ∀ c ∈ (')' :: tail).head?, (c != ')') = false := by simp
    obtain ⟨htakeInside, hdropInside⟩ := takeWhile_run hinside hclose
    simp only [htrim, htakeInside, hdropInside, readModifiers?_eq_some_iff.mpr htail,
      Option.map_some, Option.getD_some]

theorem spelled_of_read? {text : List Char} {parts : Parts} (h : Parts.read? text = some parts) :
    ∃ arguments, Spelled text parts.name arguments parts.unsigned ∧
      parts.arguments = arguments.getD [] ∧ parts.name ≠ [] ∧
      ∀ c ∈ parts.name, foldsToLetter c = true := by
  rw [Parts.read?] at h
  have htext : text = text.takeWhile isBlank ++ ((trimStart text).takeWhile foldsToLetter ++
      (trimStart text).dropWhile foldsToLetter) := by
    rw [List.takeWhile_append_dropWhile, takeWhile_append_trimStart]
  have hletters : ∀ c ∈ (trimStart text).takeWhile foldsToLetter, foldsToLetter c = true :=
    fun c hc => List.mem_takeWhile_imp hc
  have hfront := blanks_takeWhile text
  generalize text.takeWhile isBlank = before at htext hfront
  generalize (trimStart text).takeWhile foldsToLetter = name at h htext hletters
  generalize (trimStart text).dropWhile foldsToLetter = rest at h htext
  subst htext
  split_ifs at h with hempty
  rw [List.isEmpty_iff] at hempty
  split at h
  · rename_i inner hinner
    split at h
    · exact absurd h (by simp)
    · rename_i closing after hafter
      obtain ⟨unsigned, htail, rfl⟩ := Option.map_eq_some_iff.mp h
      have hinside : inner = inner.takeWhile (· != ')') ++ ')' :: after := by
        obtain rfl : closing = ')' := by
          have hhead := List.head?_dropWhile_not (· != ')') inner
          simpa [hafter] using hhead
        rw [← hafter, List.takeWhile_append_dropWhile]
      have hrest : rest = rest.takeWhile isBlank ++
          ('(' :: (inner.takeWhile (· != ')') ++ [')']) ++ after) := by
        rw [List.cons_append, List.append_assoc, List.singleton_append, ← hinside, ← hinner,
          takeWhile_append_trimStart]
      have hclosed : ')' ∉ inner.takeWhile (· != ')') := fun hmem =>
        absurd (List.mem_takeWhile_imp hmem) (by simp)
      refine ⟨some (inner.takeWhile (· != ')')), ?_, rfl, hempty, hletters⟩
      rw [hrest]
      exact .intro hfront (blanks_takeWhile rest) (.present hclosed)
        (readModifiers?_eq_some_iff.mp htail)
  · obtain ⟨unsigned, htail, rfl⟩ := Option.map_eq_some_iff.mp h
    refine ⟨none, ?_, rfl, hempty, hletters⟩
    have hspelled : Spelled (before ++ (name ++ ([] ++ ([] ++ rest)))) name none unsigned :=
      .intro hfront blanks_nil .absent (readModifiers?_eq_some_iff.mp htail)
    exact hspelled

/-- A declaration has arguments if and only if there is an opening parenthesis in it. -/
theorem Spelled.mem_iff {text name : List Char} {arguments : Option (List Char)} {unsigned : Bool}
    (h : Spelled text name arguments unsigned) (hletters : ∀ c ∈ name, foldsToLetter c = true) :
    '(' ∈ text ↔ arguments ≠ none := by
  obtain ⟨hfront, hgap, hlist, htail⟩ := h
  have hname : '(' ∉ name := fun hmem => absurd (hletters _ hmem) (by decide)
  have hbefore {cs : List Char} (hcs : Blanks cs) : '(' ∉ cs := fun hmem =>
    absurd (hcs _ hmem) (by decide)
  have hbehind := htail.notMem (c := '(') (by decide) (by decide)
  cases hlist with
  | absent => simp [hbefore hfront, hbefore hgap, hname, hbehind]
  | present closed => simp

/-- However a declaration is taken apart, its parts are the same. -/
theorem Spelled.unique {text name name' : List Char} {arguments arguments' : Option (List Char)}
    {unsigned unsigned' : Bool} (h : Spelled text name arguments unsigned)
    (h' : Spelled text name' arguments' unsigned') (hname : name ≠ []) (hname' : name' ≠ [])
    (hletters : ∀ c ∈ name, foldsToLetter c = true)
    (hletters' : ∀ c ∈ name', foldsToLetter c = true) :
    name = name' ∧ arguments = arguments' ∧ unsigned = unsigned' := by
  have hread := read?_of_spelled h hname hletters
  rw [read?_of_spelled h' hname' hletters'] at hread
  obtain ⟨rfl, harguments, rfl⟩ := Parts.mk.inj (Option.some.inj hread)
  have hgiven : arguments ≠ none ↔ arguments' ≠ none :=
    (h.mem_iff hletters).symm.trans (h'.mem_iff hletters')
  refine ⟨rfl, ?_, rfl⟩
  cases arguments <;> cases arguments' <;> simp_all

/-! ### Numbers among the arguments -/

/-- A number of 32 bits, with white space around it: digits, with or without a plus sign. -/
inductive NumberText : List Char → UInt32 → Prop
  | intro {before sign digits after : List Char} {n : UInt32} (front : Blanks before)
      (signed : sign = [] ∨ sign = ['+']) (some : digits ≠ [])
      (each : ∀ c ∈ digits, c.isDigit = true) (value : digitsValue digits = n.toNat)
      (back : Blanks after) : NumberText (before ++ (sign ++ digits ++ after)) n

/-- A list of arguments has a number at a place. -/
def NumberAt (arguments : List Char) (place : Nat) (n : UInt32) : Prop :=
  ∃ pieces piece, Pieces ',' arguments pieces ∧ pieces[place]? = some piece ∧ NumberText piece n

theorem argument?_eq_some_iff {cs : List Char} {n : UInt32} :
    argument? cs = some n ↔ NumberText cs n := by
  rw [argument?, Option.map_eq_some_iff]
  constructor
  · rintro ⟨k, hk, rfl⟩
    obtain ⟨sign, digits, hsign, hsome, heach, rfl, hbound, htrim⟩ :=
      readNumeral?_eq_some_iff.mp hk
    obtain ⟨before, after, hbefore, hafter, hcs⟩ := exists_trim cs
    rw [hcs, htrim]
    exact .intro hbefore hsign hsome heach (UInt32.toNat_ofNat_of_lt' hbound).symm hafter
  · rintro ⟨hbefore, hsign, hsome, heach, hvalue, hafter⟩
    rename_i before sign digits after
    refine ⟨n.toNat, readNumeral?_eq_some_iff.mpr
      ⟨sign, digits, hsign, hsome, heach, hvalue, n.toNat_lt_size, ?_⟩, UInt32.ofNat_toNat⟩
    have hink : ∀ c ∈ sign ++ digits, isBlank c = false := by
      intro c hc
      obtain hc | hc := List.mem_append.mp hc
      · obtain rfl | rfl := hsign
        · exact absurd hc List.not_mem_nil
        · obtain rfl := List.mem_singleton.mp hc
          decide
      · exact not_isBlank_of_isDigit (heach c hc)
    exact trim_append hbefore hafter (by simp [hsome])
      (fun c hc => hink c (List.mem_of_mem_head? hc))
      fun c hc => hink c (List.mem_of_mem_getLast? hc)

theorem arguments_eq_some_iff {cs : List Char} {place : Nat} {n : UInt32} :
    (arguments cs)[place]?.join = some n ↔ NumberAt cs place n := by
  simp only [NumberAt, pieces_iff, ← argument?_eq_some_iff]
  rw [arguments, List.getElem?_map]
  cases hplace : (splitAt ',' cs)[place]? with
  | none => simp [hplace]
  | some piece => simp [hplace]

/-! ### The meaning of a declaration -/

/-- A name of a family of the server, in any case of ASCII letters. -/
def Registered (name : List Char) : Prop :=
  ∃ f ∈ Family.standard, f.hasName (String.ofList (lower name)) = true

/-- A name of a family is made of letters. -/
theorem Registered.letters {name : List Char} (h : Registered name) :
    name ≠ [] ∧ ∀ c ∈ name, foldsToLetter c = true := by
  have hall : ∀ f ∈ Family.standard, ∀ n ∈ f.name :: f.aliases, n.toList.isEmpty = false ∧
      n.toList.all (fun c => 'a' ≤ c && c ≤ 'z') = true := by
    decide +kernel
  obtain ⟨f, hf, hname⟩ := h
  obtain ⟨hsome, hsmall⟩ := hall f hf (String.ofList (lower name))
    (by simpa [Family.hasName] using hname)
  rw [String.toList_ofList] at hsome hsmall
  refine ⟨by rintro rfl; exact absurd hsome (by decide), fun c hc => ?_⟩
  have hlower := List.all_eq_true.mp hsmall c.toLower (List.mem_map_of_mem hc)
  rw [foldsToLetter, foldCase]
  split_ifs
  · decide
  · decide
  · exact hlower

/-- What a declaration of a family means, by the table of families. The family of `tinyint` with the
length 1 is that of truth values. -/
structure Means (f : Family) (arguments : Option (List Char)) (unsigned nullable : Bool)
    (d : Declaration) : Prop where
  length : ∀ n, d.length = some n ↔ ∃ inside ∈ arguments, NumberAt inside 0 n
  scale : ∀ n, d.scale = some n ↔ ∃ inside ∈ arguments, NumberAt inside 1 n
  sign : d.unsigned = unsigned
  null : d.nullable = nullable
  family : ∃ g ∈ Family.standard,
    g.name =
        (if f.name = "tinyint" ∧ d.length = some 1 ∧ unsigned = false then "bool" else f.name) ∧
      d.family = g.name ∧ d.native = (g.member unsigned).native ∧
      d.host = ⟨(g.member unsigned).kind, nullable⟩

/-- The family of a declaration is one of the server. -/
theorem exists_familyFor {f : Family} (hf : f ∈ Family.standard) (length : Option UInt32)
    (unsigned : Bool) : ∃ g ∈ Family.standard, g.name = familyFor f.name length unsigned := by
  rw [familyFor]
  split_ifs
  · decide
  · exact ⟨f, hf, rfl⟩

/-- The numbers of a declaration are among its arguments, if it has any. -/
theorem numbers_eq_some_iff {arguments : Option (List Char)} {place : Nat} {n : UInt32} :
    (Declaration.arguments (arguments.getD []))[place]?.join = some n ↔
      ∃ inside ∈ arguments, NumberAt inside place n := by
  cases arguments with
  | none =>
    have hnone : (Declaration.arguments [])[place]?.join = none := by
      cases place <;> rfl
    simp [hnone]
  | some inside => simpa using arguments_eq_some_iff

/-- A declaration of a family means something. -/
theorem exists_means {f : Family} (hf : f ∈ Family.standard) {name : List Char}
    (hname : f.hasName (String.ofList (lower name)) = true) (arguments : Option (List Char))
    (unsigned nullable : Bool) :
    ∃ d, ofParts? Registry.standard ⟨name, arguments.getD [], unsigned⟩ nullable = some d ∧
      d.Means f arguments unsigned nullable := by
  have hfamily := Registry.family?_standard.mpr ⟨f, hf, hname, rfl⟩
  obtain ⟨g, hg, hgname⟩ :=
    exists_familyFor hf (Declaration.arguments (arguments.getD []))[0]?.join unsigned
  refine ⟨⟨g.name, _, _, _, _, nullable, unsigned⟩, ?_, fun n => numbers_eq_some_iff,
    fun n => numbers_eq_some_iff, rfl, rfl, g, hg, hgname, rfl, rfl, rfl⟩
  simp only [ofParts?, hfamily, Option.bind_eq_bind, Option.bind_some, ← hgname,
    Registry.variant?_standard hg]
  rfl

/-- Nullability selects the variant, and nothing else. -/
theorem ofParts?_nullable (parts : Parts) : ofParts? Registry.standard parts true =
    (ofParts? Registry.standard parts false).map fun d =>
      { d with nullable := true, host := d.host.orNull } := by
  simp only [ofParts?, Registry.standard, Registry.variant?_ofFamilies, Option.bind_eq_bind]
  cases (Registry.ofFamilies Family.standard).family? (String.ofList (lower parts.name)) with
  | none => rfl
  | some family =>
    simp only [Option.bind_some]
    cases Family.standard.reverse.find? fun f => familyFor family
        (arguments parts.arguments)[0]?.join parts.unsigned == f.name with
    | none => rfl
    | some f => rfl

/-! ### Reading -/

theorem read_eq_ok_iff {r : Registry} {text : String} {nullable : Bool} {d : Declaration} :
    read r text nullable = .ok d ↔
      ∃ parts, Parts.read? text.toList = some parts ∧ ofParts? r parts nullable = some d := by
  rw [← Option.bind_eq_some_iff, read]
  cases (Parts.read? text.toList).bind (ofParts? r · nullable) <;> simp

/-- A text that the grammar spells with a name of a family is read, and means what the table of
families says. -/
theorem exists_read {text : String} {name : List Char} {arguments : Option (List Char)}
    {unsigned : Bool} (h : Spelled text.toList name arguments unsigned) {f : Family}
    (hf : f ∈ Family.standard) (hname : f.hasName (String.ofList (lower name)) = true)
    (nullable : Bool) :
    ∃ d, read Registry.standard text nullable = .ok d ∧ d.Means f arguments unsigned nullable := by
  obtain ⟨hsome, hletters⟩ := Registered.letters ⟨f, hf, hname⟩
  obtain ⟨d, hd, hmeans⟩ := exists_means hf hname arguments unsigned nullable
  exact ⟨d, read_eq_ok_iff.mpr ⟨_, read?_of_spelled h hsome hletters, hd⟩, hmeans⟩

/-- A text that is read is spelled by the grammar with a name of a family. -/
theorem spelled_of_read {text : String} {nullable : Bool} {d : Declaration}
    (h : read Registry.standard text nullable = .ok d) :
    ∃ name arguments unsigned, Spelled text.toList name arguments unsigned ∧ Registered name := by
  obtain ⟨parts, hparts, hd⟩ := read_eq_ok_iff.mp h
  obtain ⟨arguments, hspelled, -⟩ := spelled_of_read? hparts
  obtain ⟨family, hfamily, -⟩ := Option.bind_eq_some_iff.mp hd
  obtain ⟨f, hf, hname, -⟩ := Registry.family?_standard.mp hfamily
  exact ⟨parts.name, arguments, parts.unsigned, hspelled, f, hf, hname⟩

theorem read_nullable (text : String) : read Registry.standard text true =
    (read Registry.standard text false).map fun d =>
      { d with nullable := true, host := d.host.orNull } := by
  simp only [read, ofParts?_nullable]
  cases Parts.read? text.toList with
  | none => rfl
  | some parts =>
    simp only [Option.bind_some]
    cases ofParts? Registry.standard parts false <;> rfl

/-- A text is read if and only if the grammar spells it with a name of a family; however the grammar
takes it apart, its parts are the same, and it means what the table of families says; and that it
admits NULL changes only this mark of the declaration and of its host type. -/
theorem read_exact (text : String) :
    (∀ nullable, (∃ d, read Registry.standard text nullable = .ok d) ↔
      ∃ name arguments unsigned, Spelled text.toList name arguments unsigned ∧ Registered name) ∧
    (∀ name arguments unsigned, Spelled text.toList name arguments unsigned →
      ∀ f ∈ Family.standard, f.hasName (String.ofList (lower name)) = true →
        (∀ name' arguments' unsigned', Spelled text.toList name' arguments' unsigned' →
          Registered name' → name' = name ∧ arguments' = arguments ∧ unsigned' = unsigned) ∧
        ∀ nullable, ∃ d, read Registry.standard text nullable = .ok d ∧
          d.Means f arguments unsigned nullable) ∧
    read Registry.standard text true = (read Registry.standard text false).map fun d =>
      { d with nullable := true, host := d.host.orNull } := by
  refine ⟨fun nullable => ⟨?_, ?_⟩, ?_, read_nullable text⟩
  · rintro ⟨d, hd⟩
    exact spelled_of_read hd
  · rintro ⟨name, arguments, unsigned, hspelled, f, hf, hname⟩
    obtain ⟨d, hd, -⟩ := exists_read hspelled hf hname nullable
    exact ⟨d, hd⟩
  · intro name arguments unsigned hspelled f hf hname
    obtain ⟨hsome, hletters⟩ := Registered.letters ⟨f, hf, hname⟩
    refine ⟨fun name' arguments' unsigned' hspelled' hregistered => ?_,
      exists_read hspelled hf hname⟩
    exact hspelled'.unique hspelled hregistered.letters.1 hsome hregistered.letters.2 hletters

/-- White space, capitals, a plus sign and the long s are all in the grammar. -/
theorem read_longSign : ∃ d, read Registry.standard "\tBIGINT ( +20 ) un\u017figned" true = .ok d ∧
    d.family = "bigint" ∧ d.length = some 20 ∧ d.scale = none ∧ d.unsigned = true := by
  have hspace : Blanks [' '] := List.forall_mem_singleton.mpr (by decide)
  have hsign : Modifier "unsigned" ([' '] ++ ['u', 'n', '\u017F', 'i', 'g', 'n', 'e', 'd']) true :=
    .present (by decide) hspace (by decide +kernel)
  have hlist : ArgumentList ('(' :: ([' ', '+', '2', '0', ' '] ++ [')'])) (some _) :=
    .present (by decide)
  have hspelled : Spelled "\tBIGINT ( +20 ) un\u017figned".toList ['B', 'I', 'G', 'I', 'N', 'T']
      (some [' ', '+', '2', '0', ' ']) true := by
    have htext : "\tBIGINT ( +20 ) un\u017figned".toList =
        ['\t'] ++ (['B', 'I', 'G', 'I', 'N', 'T'] ++ ([' '] ++
          ('(' :: ([' ', '+', '2', '0', ' '] ++ [')']) ++
            (([' '] ++ ['u', 'n', '\u017F', 'i', 'g', 'n', 'e', 'd']) ++ ([] ++ []))))) := rfl
    rw [htext]
    exact .intro (List.forall_mem_singleton.mpr (by decide)) hspace hlist
      (.intro hsign .absent blanks_nil)
  obtain ⟨f, hf, hname, hbigint⟩ : ∃ f ∈ Family.standard,
      f.hasName (String.ofList (lower ['B', 'I', 'G', 'I', 'N', 'T'])) = true ∧
        f.name = "bigint" := by
    decide +kernel
  obtain ⟨d, hd, hmeans⟩ := ((read_exact _).2.1 _ _ _ hspelled f hf hname).2 true
  have hfirst : NumberAt [' ', '+', '2', '0', ' '] 0 20 := arguments_eq_some_iff.mp (by decide)
  obtain ⟨g, -, hg, hfamily, -⟩ := hmeans.family
  rw [if_neg (by simp [hbigint]), hbigint] at hg
  refine ⟨d, hd, hfamily.trans hg, (hmeans.length 20).mpr ⟨_, rfl, hfirst⟩, ?_, hmeans.sign⟩
  rw [Option.eq_none_iff_forall_ne_some]
  intro n hn
  obtain ⟨inside, hinside, hsecond⟩ := (hmeans.scale n).mp hn
  obtain rfl := Option.mem_some.mp hinside
  exact absurd (arguments_eq_some_iff.mpr hsecond) (by simp [Declaration.arguments, splitAt])

end Declaration

end TypedSql
