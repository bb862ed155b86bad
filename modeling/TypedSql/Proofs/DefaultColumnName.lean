/-
Default column names.

The default column name of a property is the property in capitals with underscores put in. Which
underscores were put in is not told from the name itself, so the name is written once more with a
mark on each of them (`markedFrom`).

* `underscored_markedFrom` — single underscores are put in, none of them in front, and none beside
  another underscore;
* `upperSnakeFrom_eq_self_iff` — a text without small letters is its own column name if and only if
  no capital follows a digit in it;
* `isChain_upperSnakeFrom_iff` — in a column name a capital follows a digit where a small letter
  follows one in the property, so the name of a name is another one exactly there;
* `upperSnake_exact` — what the default column name of every property is.
-/
import TypedSql.Model.ColumnName
import TypedSql.Name
import TypedSql.Proofs.Runs

namespace TypedSql

/-! ### Capitals -/

/-- A character in capitals is itself, or the capital of a small letter. -/
theorem toUpper_eq_or_isLower (c : Char) :
    c.toUpper = c ∨ c.isLower = true ∧ c.toUpper.isAlpha = true := by
  by_cases hlower : c.isLower = true
  · right
    refine ⟨hlower, ?_⟩
    rw [Char.isAlpha_toUpper_eq_isAlpha, Char.isAlpha, hlower, Bool.or_true]
  · exact .inl (Char.toUpper_eq_of_not_isLower hlower)

/-- What is not a letter is not the capital of another character. -/
theorem toUpper_eq_iff {c d : Char} (hd : d.isAlpha = false) : c.toUpper = d ↔ c = d := by
  obtain hself | ⟨hlower, halpha⟩ := toUpper_eq_or_isLower c
  · rw [hself]
  · refine iff_of_false ?_ ?_
    · rintro rfl
      exact absurd (halpha.symm.trans hd) (by simp)
    · rintro rfl
      rw [Char.isAlpha, hlower, Bool.or_true] at hd
      exact absurd hd (by simp)

theorem not_isDigit_of_isAlpha {c : Char} (h : c.isAlpha = true) : c.isDigit = false := by
  by_contra hdigit
  have hcode := Text.isDigit_iff.mp (by simpa using hdigit)
  rw [Char.isAlpha, Bool.or_eq_true, Text.isUpper_iff, Text.isLower_iff] at h
  omega

theorem isDigit_toUpper (c : Char) : c.toUpper.isDigit = c.isDigit := by
  obtain hself | ⟨hlower, halpha⟩ := toUpper_eq_or_isLower c
  · rw [hself]
  · have halpha' : c.isAlpha = true := by rw [Char.isAlpha, hlower, Bool.or_true]
    rw [not_isDigit_of_isAlpha halpha, not_isDigit_of_isAlpha halpha']

/-- Whether a character may stand in a name does not hang on its case. -/
theorem admitsChar_toUpper (kind : NameKind) (c : Char) :
    kind.admitsChar c.toUpper = kind.admitsChar c := by
  have hunderscore : (c.toUpper == '_') = (c == '_') := by
    rw [Bool.eq_iff_iff, beq_iff_eq, beq_iff_eq, toUpper_eq_iff (by decide)]
  have hdollar : (c.toUpper == '$') = (c == '$') := by
    rw [Bool.eq_iff_iff, beq_iff_eq, beq_iff_eq, toUpper_eq_iff (by decide)]
  have hdot : (c.toUpper == '.') = (c == '.') := by
    rw [Bool.eq_iff_iff, beq_iff_eq, beq_iff_eq, toUpper_eq_iff (by decide)]
  simp only [NameKind.admitsChar, Text.isIdentifierChar, Char.isAlphanum,
    Char.isAlpha_toUpper_eq_isAlpha, isDigit_toUpper, hunderscore, hdollar, hdot]

/-! ### Underscores that are put in -/

/-- The characters of a column name, with a mark on each underscore that was put in. -/
def markedFrom (before : Option Char) : List Char → List (Char × Bool)
  | [] => []
  | c :: rest =>
    let word := (c.toUpper, false) :: markedFrom (some c) rest
    if startsWord before c rest.head? then ('_', true) :: word else word

/-- A text with single underscores put in: they are marked, and without them the text is left. None
is in front of the text, and none has another underscore beside it. -/
structure Underscored (text : List Char) (marked : List (Char × Bool)) : Prop where
  kept : (marked.filter fun x => !x.2).map Prod.fst = text
  underscore : ∀ x ∈ marked, x.2 = true → x.1 = '_'
  first : ∀ x ∈ marked.head?, x.2 = false
  apart : marked.IsChain fun x y => (x.2 = true → y.1 ≠ '_') ∧ (y.2 = true → x.1 ≠ '_')

theorem map_markedFrom (before : Option Char) (cs : List Char) :
    (markedFrom before cs).map Prod.fst = upperSnakeFrom before cs := by
  induction cs generalizing before with
  | nil => rfl
  | cons c rest ih =>
    rw [markedFrom, upperSnakeFrom]
    by_cases hstart : startsWord before c rest.head? = true
    · rw [if_pos hstart, if_pos hstart, List.map_cons, List.map_cons, ih]
    · rw [if_neg hstart, if_neg hstart, List.map_cons, ih]

theorem filter_markedFrom (before : Option Char) (cs : List Char) :
    ((markedFrom before cs).filter fun x => !x.2).map Prod.fst = cs.map Char.toUpper := by
  induction cs generalizing before with
  | nil => rfl
  | cons c rest ih =>
    rw [markedFrom]
    by_cases hstart : startsWord before c rest.head? = true
    · rw [if_pos hstart, List.map_cons, ← ih (some c)]
      rfl
    · rw [if_neg hstart, List.map_cons, ← ih (some c)]
      rfl

theorem eq_underscore_of_mem_markedFrom {before : Option Char} {cs : List Char} {x : Char × Bool}
    (hx : x ∈ markedFrom before cs) (hmark : x.2 = true) : x.1 = '_' := by
  induction cs generalizing before with
  | nil => exact absurd hx List.not_mem_nil
  | cons c rest ih =>
    have hword : x ∈ (c.toUpper, false) :: markedFrom (some c) rest → x.1 = '_' := by
      intro h
      obtain rfl | hrest := List.mem_cons.mp h
      · exact absurd hmark (by simp)
      · exact ih hrest
    rw [markedFrom] at hx
    split_ifs at hx with hstart
    · obtain rfl | hx := List.mem_cons.mp hx
      · rfl
      · exact hword hx
    · exact hword hx

/-- A word is started between two characters neither of which is an underscore in capitals. -/
theorem ne_underscore_of_startsWord {p c : Char} {after : Option Char}
    (h : startsWord (some p) c after = true) : p.toUpper ≠ '_' ∧ c.toUpper ≠ '_' := by
  rw [startsWord, Bool.and_eq_true] at h
  obtain ⟨hupper, hbefore⟩ := h
  constructor
  · rw [Ne, toUpper_eq_iff (by decide)]
    rintro rfl
    exact absurd hbefore (by simp [show '_'.isLower = false from rfl,
      show '_'.isDigit = false from rfl, show '_'.isUpper = false from rfl])
  · rw [Ne, toUpper_eq_iff (by decide)]
    rintro rfl
    exact absurd hupper (by decide)

/-- Behind a character, the underscores that are put in stand apart from others. -/
theorem isChain_markedFrom (p : Char) (cs : List Char) :
    ((p.toUpper, false) :: markedFrom (some p) cs).IsChain fun x y =>
      (x.2 = true → y.1 ≠ '_') ∧ (y.2 = true → x.1 ≠ '_') := by
  induction cs generalizing p with
  | nil => exact List.isChain_singleton _
  | cons c rest ih =>
    rw [markedFrom]
    by_cases hstart : startsWord (some p) c rest.head? = true
    · obtain ⟨hp, hc⟩ := ne_underscore_of_startsWord hstart
      rw [if_pos hstart, List.isChain_cons_cons, List.isChain_cons_cons]
      exact ⟨⟨by simp, fun _ => hp⟩, ⟨fun _ => hc, by simp⟩, ih c⟩
    · rw [if_neg hstart, List.isChain_cons_cons]
      exact ⟨by simp, ih c⟩

theorem markedFrom_none_cons (c : Char) (rest : List Char) :
    markedFrom none (c :: rest) = (c.toUpper, false) :: markedFrom (some c) rest := by
  rw [markedFrom, startsWord_none, if_neg Bool.false_ne_true]

theorem underscored_markedFrom (cs : List Char) :
    Underscored (cs.map Char.toUpper) (markedFrom none cs) where
  kept := filter_markedFrom none cs
  underscore _ hx := eq_underscore_of_mem_markedFrom hx
  first := by
    cases cs with
    | nil => simp [markedFrom]
    | cons c rest => simp [markedFrom_none_cons]
  apart := by
    cases cs with
    | nil => exact List.isChain_nil
    | cons c rest =>
      rw [markedFrom_none_cons]
      exact isChain_markedFrom c rest

/-! ### Characters of a column name -/

/-- Of the characters of a column name those are admitted that stand for characters of the property
that are, and underscores are. -/
theorem admitsChar_upperSnakeFrom_iff (kind : NameKind) (before : Option Char) (cs : List Char) :
    (∀ c ∈ upperSnakeFrom before cs, kind.admitsChar c = true) ↔
      ∀ c ∈ cs, kind.admitsChar c = true := by
  have hunderscore : kind.admitsChar '_' = true := by
    rw [NameKind.admitsChar, show Text.isIdentifierChar '_' = true from rfl, Bool.true_or]
  induction cs generalizing before with
  | nil => rfl
  | cons c rest ih =>
    rw [upperSnakeFrom]
    split_ifs
    · rw [List.forall_mem_cons, List.forall_mem_cons, List.forall_mem_cons, admitsChar_toUpper,
        and_iff_right hunderscore]
      exact and_congr_right fun _ => ih (some c)
    · rw [List.forall_mem_cons, List.forall_mem_cons, admitsChar_toUpper]
      exact and_congr_right fun _ => ih (some c)

/-! ### The column name of a column name -/

/-- A text has no small letters. -/
def Capital (cs : List Char) : Prop :=
  ∀ c ∈ cs, c.isLower = false

theorem capital_upperSnakeFrom (before : Option Char) (cs : List Char) :
    Capital (upperSnakeFrom before cs) := by
  induction cs generalizing before with
  | nil => exact fun _ h => absurd h List.not_mem_nil
  | cons c rest ih =>
    have hword : Capital (c.toUpper :: upperSnakeFrom (some c) rest) :=
      List.forall_mem_cons.mpr ⟨Char.isLower_toUpper_eq_false c, ih (some c)⟩
    rw [upperSnakeFrom]
    split_ifs
    · exact List.forall_mem_cons.mpr ⟨by decide, hword⟩
    · exact hword

/-- Among capitals a word is started behind digits only. -/
theorem startsWord_of_capital {p c : Char} {rest : List Char} (hp : p.isLower = false)
    (hrest : Capital rest) :
    startsWord (some p) c rest.head? = true ↔ p.isDigit = true ∧ c.isUpper = true := by
  have hafter : rest.head?.any Char.isLower = false := by
    cases rest with
    | nil => rfl
    | cons d rest => exact hrest d List.mem_cons_self
  rw [startsWord, Option.any_some, hp, hafter, Bool.false_or, Bool.and_false, Bool.or_false,
    Bool.and_eq_true, and_comm]

/-- A text without small letters is its own column name if and only if no capital follows a digit in
it. -/
theorem upperSnakeFrom_eq_self_iff {p : Char} {cs : List Char} (hp : p.isLower = false)
    (hcs : Capital cs) : upperSnakeFrom (some p) cs = cs ↔
      (p :: cs).IsChain fun c d => ¬(c.isDigit = true ∧ d.isUpper = true) := by
  induction cs generalizing p with
  | nil => exact iff_of_true rfl (List.isChain_singleton p)
  | cons c rest ih =>
    obtain ⟨hc, hrest⟩ := List.forall_mem_cons.mp hcs
    rw [List.isChain_cons_cons, ← startsWord_of_capital hp hrest, ← ih hc hrest, upperSnakeFrom]
    by_cases hstart : startsWord (some p) c rest.head? = true
    · -- the underscore that is put in stands where the capital does in the text
      rw [if_pos hstart]
      refine iff_of_false ?_ (fun h => h.1 hstart)
      intro heq
      have hupper := ((startsWord_of_capital hp hrest).mp hstart).2
      rw [← (List.cons.inj heq).1] at hupper
      exact absurd hupper (by decide)
    · rw [if_neg hstart, Char.toUpper_eq_of_not_isLower (by simp [hc]), List.cons_inj_right]
      exact (and_iff_right hstart).symm

/-- In a column name a capital follows a digit where a small letter follows one in the property: in
front of a capital behind a digit there is an underscore. -/
theorem isChain_upperSnakeFrom_iff (p : Char) (cs : List Char) :
    ((p.toUpper :: upperSnakeFrom (some p) cs).IsChain fun c d =>
        ¬(c.isDigit = true ∧ d.isUpper = true)) ↔
      (p :: cs).IsChain fun c d => ¬(c.isDigit = true ∧ d.isLower = true) := by
  induction cs generalizing p with
  | nil => exact iff_of_true (List.isChain_singleton _) (List.isChain_singleton p)
  | cons c rest ih =>
    rw [List.isChain_cons_cons, ← ih, upperSnakeFrom]
    by_cases hstart : startsWord (some p) c rest.head? = true
    · have hupper : c.isUpper = true := by
        rw [startsWord, Bool.and_eq_true] at hstart
        exact hstart.1
      have hlower : ¬ c.isLower = true := Char.not_isLower_of_isUpper hupper
      have hunderscore : '_'.isUpper = false ∧ '_'.isDigit = false := by decide
      rw [if_pos hstart, List.isChain_cons_cons, List.isChain_cons_cons]
      simp [hlower, hunderscore]
    · rw [if_neg hstart, List.isChain_cons_cons, isDigit_toUpper, Char.isUpper_toUpper_eq_isAlpha]
      refine and_congr_left fun _ => not_congr (and_congr_right fun hdigit => ?_)
      -- a capital behind the digit would start a word
      have hupper : c.isUpper = false := by
        by_contra h
        refine hstart ?_
        rw [startsWord, Option.any_some, hdigit, Bool.or_true, Bool.true_or, Bool.and_true]
        simpa using h
      rw [Char.isAlpha, hupper, Bool.false_or]

theorem upperSnakeFrom_idempotent_iff (cs : List Char) :
    upperSnakeFrom none (upperSnakeFrom none cs) = upperSnakeFrom none cs ↔
      cs.IsChain fun c d => ¬(c.isDigit = true ∧ d.isLower = true) := by
  cases cs with
  | nil => exact iff_of_true rfl List.isChain_nil
  | cons c rest =>
    have hcapital : c.toUpper.isLower = false := Char.isLower_toUpper_eq_false c
    rw [upperSnakeFrom_none_cons c rest, upperSnakeFrom_none_cons,
      Char.toUpper_toUpper_eq_toUpper, List.cons_inj_right,
      upperSnakeFrom_eq_self_iff hcapital (capital_upperSnakeFrom _ _), isChain_upperSnakeFrom_iff]

/-- **The default column name of a property.** It is the property in capitals with single
underscores put in, none of them in front or beside another underscore; its characters are admitted
in a name if and only if those of the property are; and it is its own default column name if and
only if no small letter follows a digit in the property. -/
theorem upperSnake_exact (name : String) :
    (∃ marked, (upperSnake name).toList = marked.map Prod.fst ∧
        Underscored (name.toList.map Char.toUpper) marked) ∧
      (∀ kind : NameKind, (∀ c ∈ (upperSnake name).toList, kind.admitsChar c = true) ↔
        ∀ c ∈ name.toList, kind.admitsChar c = true) ∧
      (upperSnake (upperSnake name) = upperSnake name ↔
        ¬∃ front c d back, name.toList = front ++ c :: d :: back ∧ c.isDigit = true ∧
          d.isLower = true) := by
  have hname : (upperSnake name).toList = upperSnakeFrom none name.toList := by
    rw [upperSnake, String.toList_ofList]
  refine ⟨⟨markedFrom none name.toList, ?_, underscored_markedFrom name.toList⟩, ?_, ?_⟩
  · rw [hname, map_markedFrom]
  · intro kind
    rw [hname]
    exact admitsChar_upperSnakeFrom_iff kind none name.toList
  · have htwice : upperSnake (upperSnake name) = upperSnake name ↔
        upperSnakeFrom none (upperSnakeFrom none name.toList) =
          upperSnakeFrom none name.toList := by
      rw [← String.toList_inj, hname, upperSnake, String.toList_ofList, hname]
    rw [htwice, upperSnakeFrom_idempotent_iff, List.isChain_iff_forall_rel_of_append_cons_cons]
    constructor
    · rintro h ⟨front, c, d, back, hsplit, hdigit, hlower⟩
      exact h hsplit ⟨hdigit, hlower⟩
    · rintro h c d front back hsplit ⟨hdigit, hlower⟩
      exact h ⟨front, c, d, back, hsplit, hdigit, hlower⟩

end TypedSql
