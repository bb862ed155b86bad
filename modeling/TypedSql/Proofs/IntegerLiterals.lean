/-
Whole numbers in the text of a filter.

The sign of a number is a token of its own, so the digits behind it are read on their own, as a
number below 2^63. No negation overflows then, and every whole number but one is read back from its
decimal text: the digits of the least one are those of 2^63, and are refused.

* `Token.scan_integer` — the integers of a text, and their negations, are exact;
* `Token.scanFrom_outOfRange` — digits that are out of range are refused behind them;
* `Filter.parse_equalityText` — which comparisons with a whole number are read, and how they are
  written.
-/
import TypedSql.Proofs.ConditionPhrase
import TypedSql.Proofs.LambdaText

namespace TypedSql

open Lexeme (mark space)

/-! ### Integer tokens -/

namespace Token

theorem number?_integer {position n : Nat} {cs spelling : List Char}
    (h : number? position cs = .ok (spelling, .integer n)) : n < integerBound := by
  unfold number? at h
  dsimp only at h
  split_ifs at h with hwhole hbound
  · obtain ⟨-, heq⟩ := Prod.mk.inj (Except.ok.inj h)
    obtain rfl := Token.integer.inj heq
    exact hbound
  · obtain ⟨-, heq⟩ := Prod.mk.inj (Except.ok.inj h)
    exact absurd heq (by simp)

theorem ofWord_ne_integer {name : String} {n : Nat} : ofWord name ≠ .integer n := by
  rw [ofWord]
  split_ifs <;> simp

/-- An integer is read from digits, and only within its range. -/
theorem read?_integer {position n : Nat} {cs spelling : List Char}
    (h : read? position cs = .ok (spelling, .integer n)) : n < integerBound := by
  rw [read?.eq_def] at h
  split at h
  · rename_i found hsymbol
    obtain rfl := Except.ok.inj h
    have hnone : ∀ s ∈ symbols, ∀ n, s.2 ≠ .integer n := by simp [symbols]
    exact absurd rfl (hnone _ (List.mem_of_find?_eq_some hsymbol) n)
  · split at h
    · exact absurd h (by simp)
    · split_ifs at h
      · exact number?_integer h
      · obtain ⟨-, heq⟩ := Prod.mk.inj (Except.ok.inj h)
        exact absurd heq ofWord_ne_integer

theorem scanFrom_integer {position fuel : Nat} {cs : List Char} {toks : List Placed}
    (h : scanFrom position cs fuel = .ok toks) :
    ∀ p n, ⟨p, .integer n⟩ ∈ toks → n < integerBound := by
  induction fuel generalizing position cs toks with
  | zero =>
    obtain rfl := Except.ok.inj h
    simp
  | succ fuel ih =>
    rw [scanFrom] at h
    dsimp only at h
    split at h
    · obtain rfl := Except.ok.inj h
      simp
    · obtain ⟨⟨spelling, t⟩, hread, h₁⟩ := bind_eq_ok.mp h
      obtain ⟨more, hmore, h₂⟩ := bind_eq_ok.mp h₁
      obtain rfl := pure_eq_ok.mp h₂
      intro p n hmem
      obtain heq | hmem := List.mem_cons.mp hmem
      · obtain ⟨-, rfl⟩ := Placed.mk.inj heq
        exact read?_integer hread
      · exact ih hmore p n hmem

/-- An integer of a text is the value of its literal, and so is its negation. -/
theorem scan_integer {cs : List Char} {toks : List Placed} (h : scan cs = .ok toks) {p n : Nat}
    (hmem : ⟨p, .integer n⟩ ∈ toks) :
    (Int64.ofNat n).toInt = n ∧ (-Int64.ofNat n).toInt = -n := by
  have hbound := scanFrom_integer h p n hmem
  rw [integerBound] at hbound
  rw [← Int64.ofInt_eq_ofNat, Int64.neg_ofInt]
  exact ⟨Int64.toInt_ofInt_of_le (by omega) (by omega),
    Int64.toInt_ofInt_of_le (by omega) (by omega)⟩

/-! ### Digits out of range -/

/-- Digits at the end of a text whose value is out of range are refused behind them. -/
theorem scanFrom_outOfRange {digits : List Char} (some : digits ≠ [])
    (each : ∀ c ∈ digits, c.isDigit = true) (bound : integerBound ≤ Text.digitsValue digits)
    (position fuel : Nat) :
    scanFrom position digits (fuel + 1) = .error (.parse (position + byteLength digits)
      (.integerOutOfRange (String.ofList digits))) := by
  obtain ⟨c, more, rfl⟩ := List.exists_cons_of_ne_nil some
  have hdigit : c.isDigit = true := each c List.mem_cons_self
  have hink : Text.isBlank c = false := Text.not_isBlank_of_isDigit hdigit
  have htake : (c :: more).takeWhile Char.isDigit = c :: more := List.takeWhile_eq_self_iff.mpr each
  have hdrop : (c :: more).dropWhile Char.isDigit = [] := List.dropWhile_eq_nil_iff.mpr each
  have hnumber : number? position (c :: more) = .error (.parse (position + byteLength (c :: more))
      (.integerOutOfRange (String.ofList (c :: more)))) := by
    rw [number?, htake, hdrop]
    exact if_neg (Nat.not_lt.mpr bound)
  have hread : read? position (c :: more) = .error (.parse (position + byteLength (c :: more))
      (.integerOutOfRange (String.ofList (c :: more)))) := by
    rw [read?.eq_def, symbol?_eq_none (Text.isIdentifierChar_of_isDigit hdigit)]
    simpa [hdigit] using hnumber
  rw [scanFrom, Text.trimStart, List.takeWhile_cons_of_neg (by simp [hink]),
    List.dropWhile_cons_of_neg (by simp [hink])]
  dsimp only [byteLength]
  rw [Nat.add_zero, hread]
  rfl

/-- What is refused behind a spelling is refused with the spelling in front. -/
theorem scanFrom_spelling_error {t : Token} {before spelling rest : List Char}
    (white : Text.Blanks before) (spelled : Spells t spelling) (hends : Ends t rest)
    {position fuel : Nat} {err : CompileError}
    (h : scanFrom (position + byteLength before + byteLength spelling) rest fuel = .error err) :
    scanFrom position (before ++ (spelling ++ rest)) (fuel + 1) = .error err := by
  rw [scanFrom_spelling white spelled hends, h]
  rfl

end Token

/-! ### Comparisons with a whole number -/

namespace Filter

/-- The text of a comparison of a property with a whole number. -/
def equalityText (property : String) (n : Int64) : String :=
  "row => row." ++ property ++ " == " ++ toString n.toInt

/-- The comparison of a property with a whole number. -/
def equality (property : String) (n : Int64) : Filter :=
  ⟨.compare .eq (.field property) (.literal (.integer n)), []⟩

section Text

variable {property : String} {n : Int64}

/-- The spellings of a comparison's tokens, with the white space in front of them. -/
theorem toList_equalityText (property : String) (n : Int64) :
    (equalityText property n).toList =
      [] ++ ("row".toList ++ ([' '] ++ (['=', '>'] ++ ([' '] ++ ("row".toList ++ ([] ++ (['.'] ++
        ([] ++ (property.toList ++ ([' '] ++ (['=', '='] ++
          (' ' :: (toString n.toInt).toList)))))))))))) := by
  simp [equalityText]

theorem spaced_literal (bound : -(2 ^ 63 - 1) ≤ n.toInt) :
    Token.Spaced (Lambda.literalTokens (.integer n)) (' ' :: (toString n.toInt).toList) := by
  have habove := n.toInt_lt
  have habs : n.toInt.natAbs < Token.integerBound := by
    rw [Token.integerBound]
    omega
  have hsign : n < 0 ↔ n.toInt < 0 := Int64.lt_iff_toInt_lt
  have hdigits : Token.Spells (.integer n.toInt.natAbs) (Nat.toDigits 10 n.toInt.natAbs) :=
    Token.spells_toDigits habs
  rw [Lambda.literalTokens]
  split_ifs with hneg
  · have hminus : Token.Spells .minus ['-'] := .symbol (by decide)
    have hspaced := Token.Spaced.cons Text.blanks_space hminus
      (.cons Text.blanks_nil hdigits (.nil Text.blanks_nil))
    rw [Number.toList_toString_of_neg (hsign.mp hneg)]
    simpa using hspaced
  · have hspaced := Token.Spaced.cons Text.blanks_space hdigits (.nil Text.blanks_nil)
    rw [Number.toList_toString_of_nonneg (Int.not_lt.mp (mt hsign.mpr hneg))]
    simpa using hspaced

/-- The tokens in front of the number have their spellings. -/
theorem spaced_equalityText (named : Token.isName property = true)
    (bound : -(2 ^ 63 - 1) ≤ n.toInt) :
    Token.Spaced ([.word "row", .arrow] ++ Lambda.tokens .full "row" (equality property n).expr)
      (equalityText property n).toList := by
  have hrow : Token.Spells (.word "row") "row".toList := .word rfl
  rw [toList_equalityText]
  exact .cons Text.blanks_nil hrow (.cons Text.blanks_space (.symbol (by decide))
    (.cons Text.blanks_space hrow (.cons Text.blanks_nil (.symbol (by decide))
      (.cons Text.blanks_nil (.word named) (.cons Text.blanks_space (.symbol (by decide))
        (spaced_literal bound))))))

/-- Without parameters, only the text can be refused, or its expression. -/
theorem parse_without_params (text : String) :
    Filter.parse text [] = Lambda.parse [] text >>= fun e => Filter.ofExpr e [] :=
  rfl

theorem parse_of_bound (named : Token.isName property = true) (bound : -(2 ^ 63 - 1) ≤ n.toInt) :
    Filter.parse (equalityText property n) [] = .ok (equality property n) := by
  have hexpr : Lambda.Writable [] (equality property n).expr :=
    .compare .eq (.field named) (.integer bound)
  have hrow : Token.isName "row" = true := rfl
  have hparse : Lambda.parse [] (equalityText property n) = .ok (equality property n).expr :=
    Lambda.parse_of_spaced hrow (by decide) (by simp) hexpr (Nat.zero_le _) (.plain "row")
      (spaced_equalityText named bound)
  rw [parse_without_params, hparse]
  rfl

/-- The digits of the least number are out of range, whatever stands in front of the sign. -/
theorem scan_minValue (named : Token.isName property = true) :
    Token.scan (equalityText property Int64.minValue).toList =
      .error (.parse (Token.byteLength (equalityText property Int64.minValue).toList)
        (.integerOutOfRange "9223372036854775808")) := by
  have hrow : Token.Spells (.word "row") "row".toList := .word rfl
  have harrow : Token.Spells .arrow ['=', '>'] := .symbol (by decide)
  have hpoint : Token.Spells .dot ['.'] := .symbol (by decide)
  have hequal : Token.Spells (.comparison .eq) ['=', '='] := .symbol (by decide)
  have hminus : Token.Spells .minus ['-'] := .symbol (by decide)
  have hdigits : ' ' :: (toString Int64.minValue.toInt).toList =
      [' '] ++ (['-'] ++ Nat.toDigits 10 Token.integerBound) := by
    rw [Number.toList_toString_of_neg (by decide)]
    rfl
  have hspelling : String.ofList (Nat.toDigits 10 Token.integerBound) = "9223372036854775808" :=
    rfl
  obtain ⟨fuel, hfuel⟩ :
      ∃ fuel, (equalityText property Int64.minValue).toList.length = fuel + 8 :=
    ⟨_, (Nat.sub_add_cancel (by simp [toList_equalityText])).symm⟩
  have hword {name : String} {c : Char} (hc : Text.isIdentifierChar c = false) (rest : List Char) :
      (Token.word name).Ends ([c] ++ rest) := by
    simpa [Token.Ends] using hc
  rw [Token.scan, hfuel, toList_equalityText, hdigits, ← hspelling]
  -- each spelling in front of the digits takes a unit of fuel, the last one being the sign
  refine (Token.scanFrom_spelling_error Text.blanks_nil hrow (hword rfl _)
    (Token.scanFrom_spelling_error Text.blanks_space harrow trivial
    (Token.scanFrom_spelling_error Text.blanks_space hrow (hword rfl _)
    (Token.scanFrom_spelling_error Text.blanks_nil hpoint trivial
    (Token.scanFrom_spelling_error Text.blanks_nil (.word named) (hword rfl _)
    (Token.scanFrom_spelling_error Text.blanks_space hequal (by simp [Token.Ends])
    (Token.scanFrom_spelling_error Text.blanks_space hminus trivial
    (Token.scanFrom_outOfRange Nat.toDigits_ne_nil Number.isDigit_toDigits
      (Text.digitsValue_toDigits Token.integerBound).ge _ fuel)))))))).trans ?_
  simp only [Token.byteLength_append, Nat.add_assoc, Nat.zero_add]

/-- No quotation mark stands in the text. -/
theorem not_isQuotation_equalityText (named : Token.isName property = true) :
    ∀ c ∈ (equalityText property n).toList, Lambda.isQuotation c = false := by
  have hname : ∀ c ∈ property.toList, Lambda.isQuotation c = false := fun c hc =>
    Lambda.not_isQuotation (by decide) ((Token.isName_iff.mp named).2.1 c hc)
  have hnumber : ∀ c ∈ (toString n.toInt).toList, Lambda.isQuotation c = false := by
    have hdigits : ∀ c ∈ Nat.toDigits 10 n.toInt.natAbs, Lambda.isQuotation c = false :=
      fun c hc => Lambda.not_isQuotation (by decide) (Number.isDigit_toDigits c hc)
    by_cases h : 0 ≤ n.toInt
    · rwa [Number.toList_toString_of_nonneg h]
    · rw [Number.toList_toString_of_neg (by omega), List.forall_mem_cons]
      exact ⟨rfl, hdigits⟩
  simp only [equalityText, String.toList_append, List.forall_mem_append]
  exact ⟨⟨⟨by simp [Lambda.isQuotation], hname⟩, by simp [Lambda.isQuotation]⟩, hnumber⟩

/-- The text of the least number is refused behind its digits. -/
theorem parse_minValue (named : Token.isName property = true) :
    Filter.parse (equalityText property Int64.minValue) [] =
      .error (.parse (Token.byteLength (equalityText property Int64.minValue).toList)
        (.integerOutOfRange "9223372036854775808")) := by
  have hquotation : (equalityText property Int64.minValue).toList.any Lambda.isQuotation = false :=
    List.any_eq_false.mpr fun c hc => by simp [not_isQuotation_equalityText named c hc]
  rw [parse_without_params, Lambda.parse, hquotation]
  simp only [Bool.false_eq_true, if_false, scan_minValue named]
  rfl

/-- Whatever the model, the number is written as in the text. -/
theorem sql_equality {m : RowModel} {column : Field} (found : m.field? property = some column)
    (admitted : NameKind.column.admits column.columnName = true) :
    (equality property n).sql m =
      .ok ("(`" ++ column.columnName ++ "` = " ++ toString n.toInt ++ ")") := by
  have hlookup : m.lookup property = .ok column := by rw [RowModel.lookup, found]
  have hcolumn : column.columnLexeme = .ok (.name column.columnName) :=
    columnLexeme_ok.mpr ⟨admitted, rfl⟩
  have hfield : (Expr.field property).lexemes m = .ok [.name column.columnName] := by
    rw [Expr.lexemes, hlookup, ok_bind, hcolumn]
    rfl
  have hlexemes : (equality property n).condition m = .ok [mark "(", .name column.columnName, space,
      mark "=", space, .integer n, mark ")"] := by
    rw [condition, equality, Expr.lexemes, if_neg (by simp [Expr.isNull]), hfield]
    rfl
  rw [sql, hlexemes, ok_bind]
  refine congrArg Except.ok (String.toList_inj.mp ?_)
  simp [Lexeme.text, Lexeme.spell, space]

end Text

/-- A comparison of a property with a whole number is read from its text, and written with the same
digits, except that the least number has no text: its digits are out of range. In no text does the
negation of a number overflow. -/
theorem parse_equalityText {property : String} (named : Token.isName property = true) (n : Int64) :
    Filter.parse (equalityText property n) [] =
      (if n = Int64.minValue then
        .error (.parse (Token.byteLength (equalityText property n).toList)
          (.integerOutOfRange "9223372036854775808"))
      else .ok (equality property n)) ∧
    (∀ (m : RowModel) (column : Field), m.field? property = some column →
      NameKind.column.admits column.columnName = true → (equality property n).sql m =
        .ok ("(`" ++ column.columnName ++ "` = " ++ toString n.toInt ++ ")")) ∧
    ∀ (text : String) (toks : List Placed), Token.scan text.toList = .ok toks →
      ∀ p i, ⟨p, .integer i⟩ ∈ toks →
        (Int64.ofNat i).toInt = i ∧ (-Int64.ofNat i).toInt = -i := by
  refine ⟨?_, fun m column found admitted => sql_equality found admitted,
    fun text toks hscan p i => Token.scan_integer hscan⟩
  split_ifs with hmin
  · subst hmin
    exact parse_minValue named
  · refine parse_of_bound named ?_
    have hle := n.le_toInt
    have hne : n.toInt ≠ Int64.minValue.toInt := fun h => hmin (Int64.toInt_inj.mp h)
    rw [Int64.toInt_minValue] at hne
    omega

/-- The text of the least number is refused, and that of the next one is read. -/
theorem parse_equalityText_least :
    Filter.parse "row => row.P == -9223372036854775808" [] =
        .error (.parse 36 (.integerOutOfRange "9223372036854775808")) ∧
      Filter.parse "row => row.P == -9223372036854775807" [] =
        .ok (equality "P" (-9223372036854775807)) := by
  have named : Token.isName "P" = true := rfl
  exact ⟨(parse_equalityText named Int64.minValue).1,
    (parse_equalityText named (-9223372036854775807)).1⟩

end Filter

end TypedSql
