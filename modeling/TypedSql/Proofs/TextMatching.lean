/-
Texts matched with patterns.

`Contains`, `StartsWith` and `EndsWith` are matches with a pattern that has the bound text as its
middle, beginning or end. So the text is a pattern as well: `%` in it stands for any run of
characters and `_` for any one, and a backslash takes what follows it as itself.

* `PatternItem.fits_sample` — every pattern matches a text that is no longer than what it spells;
* `Method.fits_iff` — so a method finds each text as it is if and only if its pattern does;
* `Filter.Accepted.matching_sql_iff` — the texts that the condition of a method call finds as they
  are.
-/
import TypedSql.Proofs.Meaning

namespace TypedSql

/-! ### Patterns -/

/-- An item of a pattern. -/
inductive PatternItem where
  /-- Any run of characters. -/
  | run
  /-- Any one character. -/
  | one
  | char (c : Char)
  deriving DecidableEq, Repr

namespace PatternItem

/-- The items of a pattern. A backslash takes the character behind it as itself, and stands for
itself at the end. -/
def ofPattern : List Char → List PatternItem
  | '%' :: cs => run :: ofPattern cs
  | '_' :: cs => one :: ofPattern cs
  | '\\' :: c :: cs => char c :: ofPattern cs
  | c :: cs => char c :: ofPattern cs
  | [] => []

/-- Whether a text matches the items of a pattern. -/
def fits : List PatternItem → List Char → Bool
  | [], cs => cs.isEmpty
  | run :: ps, cs => cs.tails.any (fits ps)
  | one :: ps, _ :: cs => fits ps cs
  | char c :: ps, d :: cs => c == d && fits ps cs
  | _ :: _, [] => false

variable {ps : List PatternItem} {v cs : List Char}

theorem fits_run : fits (run :: ps) cs = true ↔ ∃ rest, rest <:+ cs ∧ fits ps rest = true := by
  simp [fits]

theorem fits_chars :
    fits (v.map char ++ ps) cs = true ↔ ∃ rest, cs = v ++ rest ∧ fits ps rest = true := by
  induction v generalizing cs with
  | nil => simp
  | cons c v ih =>
    cases cs with
    | nil => simp [fits]
    | cons d cs =>
      rw [List.map_cons, List.cons_append, fits, Bool.and_eq_true, beq_iff_eq, ih]
      simp only [List.cons_append, List.cons.injEq, and_assoc, exists_and_left, eq_comm]

theorem fits_startsWith : fits (v.map char ++ [run]) cs = true ↔ v <+: cs := by
  have hrest (rest : List Char) : fits [run] rest = true := fits_run.mpr ⟨[], List.nil_suffix, rfl⟩
  simp only [fits_chars, hrest, and_true]
  exact ⟨fun ⟨rest, h⟩ => ⟨rest, h.symm⟩, fun ⟨rest, h⟩ => ⟨rest, h.symm⟩⟩

theorem fits_endsWith : fits (run :: v.map char) cs = true ↔ v <:+ cs := by
  have hwhole (rest : List Char) : fits (v.map char) rest = true ↔ rest = v := by
    rw [← List.append_nil (v.map char), fits_chars]
    simp [fits]
  simp [fits_run, hwhole]

theorem fits_contains : fits (run :: (v.map char ++ [run])) cs = true ↔ v <:+: cs := by
  simp only [fits_run, fits_startsWith, List.infix_iff_prefix_suffix, and_comm]

/-! ### Texts that stand for themselves -/

/-- Whether a character stands for itself wherever it stands in a pattern. -/
def isPlain (c : Char) : Bool :=
  c != '%' && c != '_' && c != '\\'

theorem ofPattern_append (h : ∀ c ∈ v, isPlain c = true) (tail : List Char) :
    ofPattern (v ++ tail) = v.map char ++ ofPattern tail := by
  induction v with
  | nil => rfl
  | cons c v ih =>
    obtain ⟨hplain, hrest⟩ := List.forall_mem_cons.mp h
    obtain ⟨⟨hpercent, hunderscore⟩, hescape⟩ : (c ≠ '%' ∧ c ≠ '_') ∧ c ≠ '\\' := by
      simpa [isPlain] using hplain
    rw [List.cons_append, ofPattern, ih hrest]
    · rfl
    · exact hpercent
    · exact hunderscore
    · exact fun _ _ h => absurd h hescape

/-- A text that matches the items of a pattern: nothing for a run, and a letter for any one
character. -/
def sample : List PatternItem → List Char
  | [] => []
  | run :: ps => sample ps
  | one :: ps => 'a' :: sample ps
  | char c :: ps => c :: sample ps

theorem fits_sample (ps : List PatternItem) : fits ps (sample ps) = true := by
  induction ps with
  | nil => rfl
  | cons p ps ih =>
    cases p with
    | run => exact fits_run.mpr ⟨_, List.suffix_rfl, ih⟩
    | one => exact ih
    | char c => simp [sample, fits, ih]

/-- Behind a pattern there is nothing, or a run. -/
def IsTail (tail : List Char) : Prop :=
  tail = [] ∨ tail = ['%']

/-- Whether a text stands for itself in front of a tail: wildcards and backslashes do not, except
that a backslash at the end of a pattern does. -/
def StandsForItself (v tail : List Char) : Prop :=
  (∀ c ∈ v, isPlain c = true) ∨
    tail = [] ∧ ∃ before, v = before ++ ['\\'] ∧ ∀ c ∈ before, isPlain c = true

theorem ofPattern_of_standsForItself {tail : List Char} (h : StandsForItself v tail) :
    ofPattern (v ++ tail) = v.map char ++ ofPattern tail := by
  obtain h | ⟨rfl, before, rfl, hbefore⟩ := h
  · exact ofPattern_append h tail
  · rw [List.append_nil, ofPattern_append hbefore]
    simp [ofPattern]

theorem ofPattern_cons {c : Char} (h : isPlain c = true) (cs : List Char) :
    ofPattern (c :: cs) = char c :: ofPattern cs :=
  ofPattern_append (List.forall_mem_singleton.mpr h) cs

/-- A character that begins no other item is plain, or a backslash at the end. -/
theorem isPlain_or_eq {c : Char} {cs : List Char} (hpercent : c ≠ '%') (hunderscore : c ≠ '_')
    (hescape : ∀ d ds, c = '\\' → cs = d :: ds → False) :
    isPlain c = true ∨ c = '\\' ∧ cs = [] := by
  by_cases hc : c = '\\'
  · cases cs with
    | nil => exact .inr ⟨hc, rfl⟩
    | cons d ds => exact (hescape d ds hc rfl).elim
  · exact .inl (by simp [isPlain, hpercent, hunderscore, hc])

/-- The sample of a text is no longer than the text. -/
theorem length_sample_le {tail : List Char} (htail : IsTail tail) (v : List Char) :
    (sample (ofPattern (v ++ tail))).length ≤ v.length := by
  induction v using ofPattern.induct with
  | case1 cs ih => exact Nat.le_succ_of_le ih
  | case2 cs ih => exact Nat.succ_le_succ ih
  | case3 c cs ih => exact Nat.le_succ_of_le (Nat.succ_le_succ ih)
  | case4 c cs hpercent hunderscore hescape ih =>
    obtain hplain | ⟨rfl, rfl⟩ := isPlain_or_eq hpercent hunderscore hescape
    · rw [List.cons_append, ofPattern_cons hplain]
      exact Nat.succ_le_succ ih
    · obtain rfl | rfl := htail <;> simp [ofPattern, sample]
  | case5 => obtain rfl | rfl := htail <;> simp [ofPattern, sample]

/-- Only a text that stands for itself is its own sample. -/
theorem standsForItself_of_sample {tail : List Char} (htail : IsTail tail) {v : List Char}
    (h : sample (ofPattern (v ++ tail)) = v) : StandsForItself v tail := by
  -- a run and an escape leave the sample too short, and a character in the place of any one is
  -- another one than the wildcard
  induction v using ofPattern.induct with
  | case1 cs ih =>
    have hle := length_sample_le htail cs
    have hlength : (sample (ofPattern (cs ++ tail))).length = cs.length + 1 :=
      congrArg List.length h
    omega
  | case2 cs ih => exact absurd (List.cons.inj h).1 (by decide)
  | case3 c cs ih =>
    have hle := length_sample_le htail cs
    have hlength : (sample (ofPattern (cs ++ tail))).length + 1 = cs.length + 2 :=
      congrArg List.length h
    omega
  | case4 c cs hpercent hunderscore hescape ih =>
    obtain hplain | ⟨rfl, rfl⟩ := isPlain_or_eq hpercent hunderscore hescape
    · rw [List.cons_append, ofPattern_cons hplain] at h
      obtain hcs | ⟨rfl, before, rfl, hbefore⟩ := ih (List.cons.inj h).2
      · exact .inl (List.forall_mem_cons.mpr ⟨hplain, hcs⟩)
      · exact .inr ⟨rfl, c :: before, rfl, List.forall_mem_cons.mpr ⟨hplain, hbefore⟩⟩
    · obtain rfl | rfl := htail
      · exact .inr ⟨rfl, [], rfl, by simp⟩
      · exact absurd h (by simp [ofPattern, sample])
  | case5 => exact .inl (by simp)

end PatternItem

open PatternItem (ofPattern fits sample StandsForItself)

/-! ### Methods that match -/

namespace Method

/-- Whether a method is a match with a pattern. -/
def isMatch : Method → Bool
  | contains | startsWith | endsWith => true
  | _ => false

/-- Where a method is to find a text in another one: anywhere, at its beginning, or at its end. -/
def Finds : Method → List Char → List Char → Prop
  | contains, v, cs => v <:+: cs
  | startsWith, v, cs => v <+: cs
  | endsWith, v, cs => v <:+ cs
  | _, _, _ => False

/-- What stands in front of the text in a method's pattern. -/
def patternHead : Method → List Char
  | contains | endsWith => ['%']
  | _ => []

/-- What stands behind the text in a method's pattern. -/
def patternTail : Method → List Char
  | contains | startsWith => ['%']
  | _ => []

/-- The pattern of a method that matches. -/
def pattern (method : Method) (v : List Char) : List Char :=
  method.patternHead ++ (v ++ method.patternTail)

variable {method : Method} {v : List Char}

theorem isTail_patternTail (method : Method) : PatternItem.IsTail method.patternTail := by
  cases method with
  | contains | startsWith => exact .inr rfl
  | _ => exact .inl rfl

/-- A text that stands for itself is found where it is. -/
theorem fits_of_standsForItself (hmatch : method.isMatch = true)
    (h : StandsForItself v method.patternTail) (cs : List Char) :
    fits (ofPattern (method.pattern v)) cs = true ↔ method.Finds v cs := by
  have hitems := PatternItem.ofPattern_of_standsForItself h
  cases method with
  | contains =>
    have hpattern : ofPattern (contains.pattern v) = .run :: (v.map .char ++ [.run]) :=
      congrArg (List.cons PatternItem.run) hitems
    rw [hpattern]
    exact PatternItem.fits_contains
  | startsWith =>
    have hpattern : ofPattern (startsWith.pattern v) = v.map .char ++ [.run] := hitems
    rw [hpattern]
    exact PatternItem.fits_startsWith
  | endsWith =>
    have hpattern : ofPattern (endsWith.pattern v) = .run :: (v.map .char ++ []) :=
      congrArg (List.cons PatternItem.run) hitems
    rw [hpattern, List.append_nil]
    exact PatternItem.fits_endsWith
  | _ => exact absurd hmatch (by simp [isMatch])

/-- What a method finds in a text of no greater length is the text. -/
theorem Finds.eq_of_length_le {cs : List Char} (h : method.Finds v cs)
    (hlength : cs.length ≤ v.length) : v = cs := by
  cases method with
  | contains => exact List.IsInfix.eq_of_length_le h hlength
  | startsWith => exact List.IsPrefix.eq_of_length_le h hlength
  | endsWith => exact List.IsSuffix.eq_of_length_le h hlength
  | _ => exact absurd h (by simp [Finds])

/-- A method finds a text in every other one as it is if and only if the text stands for itself in
the method's pattern. -/
theorem fits_iff (hmatch : method.isMatch = true) :
    (∀ cs, fits (ofPattern (method.pattern v)) cs = true ↔ method.Finds v cs) ↔
      StandsForItself v method.patternTail := by
  refine ⟨fun h => ?_, fits_of_standsForItself hmatch⟩
  -- the sample of the pattern is that of the text, and no longer than the text
  have htail := isTail_patternTail method
  have hhead : sample (ofPattern (method.pattern v)) =
      sample (ofPattern (v ++ method.patternTail)) := by
    cases method <;> rfl
  have hfinds := (h _).mp (PatternItem.fits_sample (ofPattern (method.pattern v)))
  rw [hhead] at hfinds
  exact PatternItem.standsForItself_of_sample htail
    (hfinds.eq_of_length_le (PatternItem.length_sample_le htail v)).symm

end Method

/-! ### Texts on a server -/

/-- Whether a text matches a pattern. -/
def matchesPattern (pattern text : String) : Bool :=
  fits (ofPattern pattern.toList) text.toList

/-- Texts are matched with patterns as they are, letter case and all, and put together. -/
structure Interpretation.MatchesTexts {V : Type} (i : Interpretation V) : Prop where
  like (text pattern : String) : i.truth (i.like (some (i.ofText text)) (some (i.ofText pattern))) =
    some (matchesPattern pattern text)
  concat (texts : List String) :
    i.concat (texts.map fun text => some (i.ofText text)) = some (i.ofText (String.join texts))

/-- A method that matches is true of a text where the text matches its pattern. -/
theorem Method.truth_result {method : Method} (hmatch : method.isMatch = true) {V : Type}
    {i : Interpretation V} (hi : i.MatchesTexts) (text v : String) :
    i.truth (method.result i (some (i.ofText text)) [some (i.ofText v)]) =
      some (fits (ofPattern (method.pattern v.toList)) text.toList) := by
  have hlike (texts : List String) (hjoin : (String.join texts).toList = method.pattern v.toList) :
      i.truth (i.like (some (i.ofText text)) (i.concat (texts.map fun t => some (i.ofText t)))) =
        some (fits (ofPattern (method.pattern v.toList)) text.toList) := by
    rw [hi.concat, hi.like, matchesPattern, hjoin]
  cases method with
  | contains => exact hlike ["%", v, "%"] (by simp [pattern, patternHead, patternTail])
  | startsWith => exact hlike [v, "%"] (by simp [pattern, patternHead, patternTail])
  | endsWith => exact hlike ["%", v] (by simp [pattern, patternHead, patternTail])
  | _ => exact absurd hmatch (by simp [isMatch])

theorem Expr.truth_match {method : Method} (hmatch : method.isMatch = true) {V : Type}
    {i : Interpretation V} (hi : i.MatchesTexts) {s : Environment V} {m : RowModel}
    {property name text v : String}
    (hcolumn : s.column (m.columnOf property) = some (i.ofText text))
    (hparameter : s.parameter name = some (i.ofText v)) :
    (Expr.call method (.field property) [.param name]).truth i s m =
      some (fits (ofPattern (method.pattern v.toList)) text.toList) := by
  rw [truth, value, value, valueOfList, value, valueOfList, hcolumn, hparameter]
  exact Method.truth_result hmatch hi text v

/-- The condition of a call of `Contains`, `StartsWith` or `EndsWith` on a property finds a bound
text as it is, whatever the property holds, if and only if the text stands for itself in a
pattern. -/
theorem Filter.Accepted.matching_sql_iff {f : Filter} (hf : f.Accepted) {method : Method}
    {property name : String} (hmatch : method.isMatch = true)
    (hexpr : f.expr = .call method (.field property) [.param name]) {m : RowModel} {text : String}
    (h : f.sql m = .ok text) :
    ∃ t, Condition.ofText text = some t ∧
      ∀ {V : Type} (i : Interpretation V), i.MatchesTexts → ∀ v : String,
        (∀ (s : Environment V) (column : String),
          s.column (m.columnOf property) = some (i.ofText column) →
          s.parameter name = some (i.ofText v) →
          (t.truth i s = some true ↔ method.Finds v.toList column.toList)) ↔
        StandsForItself v.toList method.patternTail := by
  have hgrouping : f.expr.keepsGrouping = true := by
    rw [hexpr]
    cases method <;> first | rfl | exact absurd hmatch (by simp [Method.isMatch])
  obtain ⟨t, ht, hvalue⟩ := hf.value_sql hgrouping h
  refine ⟨t, ht, fun {V} i hi v => ?_⟩
  have htruth {s : Environment V} {column : String}
      (hcolumn : s.column (m.columnOf property) = some (i.ofText column))
      (hparameter : s.parameter name = some (i.ofText v)) :
      t.truth i s = some true ↔
        fits (ofPattern (method.pattern v.toList)) column.toList = true := by
    rw [Phrase.truth, hvalue, hexpr]
    exact (Eq.congr_left (Expr.truth_match hmatch hi hcolumn hparameter)).trans Option.some_inj
  rw [← Method.fits_iff hmatch]
  constructor
  · intro hfinds cs
    -- a row that holds the text, whatever the column
    let s : Environment V :=
      ⟨fun _ => some (i.ofText (String.ofList cs)), fun _ => some (i.ofText v)⟩
    have hrow := hfinds s (String.ofList cs) rfl rfl
    rwa [htruth rfl rfl, String.toList_ofList] at hrow
  · intro hfits s column hcolumn hparameter
    rw [htruth hcolumn hparameter]
    exact hfits column.toList

/-- A server whose values are all texts. -/
def Interpretation.texts : Interpretation String where
  ofBool b := if b then "1" else "0"
  holds v := v == "1"
  holds_ofBool b := by cases b <;> rfl
  ofInt n := toString n
  ofNumeral spelling := spelling
  ofText text := text
  compare
    | .eq, a, b => a == b
    | .ne, a, b => a != b
    | .lt, a, b => a < b
    | .le, a, b => a ≤ b
    | .gt, a, b => b < a
    | .ge, a, b => b ≤ a
  like text pattern := do
    let t ← text
    let p ← pattern
    some (if matchesPattern p t then "1" else "0")
  upper v := v.map String.toUpper
  lower v := v.map String.toLower
  concat vs := (vs.mapM id).map String.join
  clock _ := ""

theorem Interpretation.matchesTexts_texts : texts.MatchesTexts where
  like text pattern := by
    cases h : matchesPattern pattern text <;> simp [texts, truth, h]
  concat vs := by
    have hall : (vs.map fun text => some text).mapM id = some vs := by
      induction vs with
      | nil => rfl
      | cons v vs ih => simp [ih]
    exact congrArg (Option.map String.join) hall

/-- A table of names. -/
def RowModel.named : RowModel :=
  ⟨"Named", "named", [{ property := "Name", host := ⟨.string, false⟩ }]⟩

/-- A text looked for in a property, as in `row => row.Name.Contains(x)`. -/
def Filter.containing : Filter :=
  ⟨.call .contains (.field "Name") [.param "x"], [⟨"x", ⟨.string, false⟩⟩]⟩

/-- A text of a letter and a digit is found in another one as it is. -/
theorem Filter.matching_sql_containing :
    ∃ t, Condition.ofText "`NAME` LIKE CONCAT(\"%\", @x, \"%\")" = some t ∧
      t.truth .texts ⟨fun _ => some "1a2", fun _ => some "a2"⟩ = some true := by
  have hparse : Filter.parse "row => row.Name.Contains(x)" [⟨"x", ⟨.string, false⟩⟩] =
      .ok containing := rfl
  obtain ⟨t, ht, hfinds⟩ := (Accepted.parse hparse).matching_sql_iff rfl rfl (m := .named) rfl
  have hplain : StandsForItself "a2".toList Method.contains.patternTail :=
    .inl (by simp [PatternItem.isPlain])
  have hrow := (hfinds .texts Interpretation.matchesTexts_texts "a2").mpr hplain
    ⟨fun _ => some "1a2", fun _ => some "a2"⟩ "1a2" rfl rfl
  exact ⟨t, ht, hrow.mpr ⟨['1'], [], rfl⟩⟩

/-- A percent sign is found in a text that has none. -/
theorem Filter.not_finds_percent :
    containing.Accepted ∧ containing.sql .named = .ok "`NAME` LIKE CONCAT(\"%\", @x, \"%\")" ∧
      Interpretation.texts.MatchesTexts ∧
      ∃ t, Condition.ofText "`NAME` LIKE CONCAT(\"%\", @x, \"%\")" = some t ∧
        t.truth .texts ⟨fun _ => some "a", fun _ => some "%"⟩ = some true ∧
        ¬"%".toList <:+: "a".toList := by
  have hparse : Filter.parse "row => row.Name.Contains(x)" [⟨"x", ⟨.string, false⟩⟩] =
      .ok containing := rfl
  have haccepted : containing.Accepted := .parse hparse
  obtain ⟨t, ht, hvalue⟩ := haccepted.value_sql rfl (m := .named) rfl
  let s : Environment String := ⟨fun _ => some "a", fun _ => some "%"⟩
  have htruth : containing.expr.truth .texts s .named =
      some (fits (ofPattern (Method.contains.pattern "%".toList)) "a".toList) :=
    Expr.truth_match rfl Interpretation.matchesTexts_texts rfl rfl
  exact ⟨haccepted, rfl, Interpretation.matchesTexts_texts, t, ht,
    (congrArg _ (hvalue .texts s)).trans htruth, by decide⟩

end TypedSql
