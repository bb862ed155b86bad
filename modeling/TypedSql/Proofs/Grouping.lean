/-
The grouping of operators in a condition.

Comparisons and connectives are written in parentheses, but negations, matches, equality by method
and tests for a value are not. So a condition is read with the operators of its expression unless
one of these stands where an operator binds more tightly (`Expr.keepsGrouping`).

* `Expr.wellGrouped_phrase` — an expression keeps its grouping if and only if its phrase is well
  grouped;
* `Filter.Accepted.read_sql_iff` — and these are the conditions that are read as they are meant.
-/
import TypedSql.Proofs.ConditionPhrase
import TypedSql.Proofs.ConditionReader

namespace TypedSql

/-- The phrase that a text spells. -/
def Condition.ofText (text : String) : Option Phrase :=
  (Condition.scan text.toList).bind Condition.read

/-- How loosely a method call binds, by how loosely its receiver does. -/
def Method.level : Method → Nat → Nat
  | contains, _ | startsWith, _ | endsWith, _ | equals _, _ | hasValue, _ => 1
  | toUpper, _ | toLower, _ => 0
  | value, receiver => receiver

/-- Whether a receiver and arguments bind as tightly as a method asks for. -/
def Method.takes : Method → Nat → List Nat → Bool
  | contains, receiver, _ | startsWith, receiver, _ | endsWith, receiver, _
  | hasValue, receiver, _ => receiver ≤ 1
  | equals false, receiver, arguments => receiver ≤ 1 && arguments.all (· == 0)
  | equals true, _, _ | toUpper, _, _ | toLower, _, _ | value, _, _ => true

namespace Expr

/-- How loosely the condition of an expression binds. -/
def level : Expr → Nat
  | not _ => 2
  | call method receiver _ => method.level (level receiver)
  | _ => 0

mutual

/-- Whether every operand binds as tightly as its place asks for. -/
def keepsGrouping : Expr → Bool
  | field _ | param _ | literal _ | now _ => true
  | compare _ left right =>
    keepsGrouping left && keepsGrouping right &&
      if left.isNull && !right.isNull then level right ≤ 1 else level left ≤ 1 && level right == 0
  | logical _ operands => allKeepGrouping operands
  | not operand => keepsGrouping operand
  | call method receiver arguments =>
    keepsGrouping receiver && allKeepGrouping arguments &&
      method.takes (level receiver) (arguments.map level)

/-- Whether every operand within every one of the expressions does. -/
def allKeepGrouping : List Expr → Bool
  | [] => true
  | e :: rest => keepsGrouping e && allKeepGrouping rest

end

theorem allKeepGrouping_iff {es : List Expr} :
    allKeepGrouping es = true ↔ ∀ e ∈ es, e.keepsGrouping = true := by
  induction es with
  | nil => simp [allKeepGrouping]
  | cons e es ih => simp [allKeepGrouping, ih]

theorem level_le_two : ∀ e : Expr, e.level ≤ 2
  | field _ | param _ | literal _ | now _ | compare .. | logical .. | not _ => by simp [level]
  | call method receiver _ => by
    have ih := level_le_two receiver
    cases method <;> simp [level, Method.level, ih]

end Expr

/-! ### Phrases without parentheses -/

namespace Phrase

theorem bare_comparison (op : Comparison) (left right : Phrase) (rightNull : Bool) :
    (comparison op left right rightNull).bare = comparison op left.bare right.bare rightNull := by
  cases op <;> cases rightNull <;> rfl

theorem bare_joined (op : Operator) (es : List Phrase) :
    (joined op es).bare = joined op (es.map bare) := by
  cases es with
  | nil => rfl
  | cons first rest =>
    simp only [joined, List.map_cons]
    induction rest generalizing first with
    | nil => rfl
    | cons next rest ih => simp [ih, bare]

end Phrase

theorem Method.bare_phrase (method : Method) (receiver : Phrase) (arguments : List Phrase) :
    (method.phrase receiver arguments).bare =
      method.phrase receiver.bare (arguments.map Phrase.bare) := by
  rcases arguments with _ | ⟨argument, _ | ⟨other, more⟩⟩
  all_goals cases method with
  | equals ignoreCase => cases ignoreCase <;> rfl
  | _ => rfl

namespace Expr

/-- The operators of an expression, grouped as the expression groups them. -/
def grouping (m : RowModel) (e : Expr) : Phrase :=
  e.phrase id m

/-- Without parentheses, the phrase of an expression has the operators of the expression. -/
theorem bare_phrase (m : RowModel) (e : Expr) : (e.phrase .group m).bare = e.grouping m := by
  rw [grouping]
  have hmap : ∀ {es : List Expr},
      (∀ e ∈ es, (e.phrase .group m).bare = e.phrase id m) →
        (phraseOfList .group m es).map Phrase.bare = phraseOfList id m es := by
    intro es each
    rw [phraseOfList_eq_map, phraseOfList_eq_map, List.map_map]
    exact List.map_congr_left each
  induction e using Expr.induction with
  | field property => rfl
  | param name => rfl
  | literal value => rfl
  | now clock => cases clock <;> rfl
  | compare op left right ihleft ihright =>
    rw [phrase, phrase]
    split_ifs
    · rw [Phrase.bare, Phrase.bare_comparison, ihleft, ihright]
      rfl
    · rw [Phrase.bare, Phrase.bare_comparison, ihleft, ihright]
      rfl
  | logical op operands ih =>
    rw [phrase, phrase, Phrase.bare, Phrase.bare_joined, hmap ih]
    rfl
  | not operand ih => rw [phrase, phrase, Phrase.bare, ih]
  | call method receiver arguments ih iharguments =>
    rw [phrase, phrase, Method.bare_phrase, ih, hmap iharguments]

end Expr

/-! ### Well-grouped phrases -/

namespace Method

/-- A method with as many arguments as it takes: none, or one. -/
theorem arguments_of_arity {α : Type} {method : Method} {arguments : List α}
    (arity : arguments.length = method.arity) :
    method.arity = 0 ∧ arguments = [] ∨ method.arity = 1 ∧ ∃ argument, arguments = [argument] := by
  have hle := method.arity_le_one
  rcases Nat.le_one_iff_eq_zero_or_eq_one.mp hle with hzero | hone
  · exact .inl ⟨hzero, List.eq_nil_of_length_eq_zero (arity.trans hzero)⟩
  · exact .inr ⟨hone, List.length_eq_one_iff.mp (arity.trans hone)⟩

theorem level_phrase {method : Method} {receiver : Phrase} {arguments : List Phrase}
    (arity : arguments.length = method.arity) :
    (method.phrase receiver arguments).level = method.level receiver.level := by
  rcases arguments_of_arity arity with ⟨hnone, rfl⟩ | ⟨hone, argument, rfl⟩
  · cases method with
    | toUpper | toLower | hasValue | value => rfl
    | _ => exact absurd hnone (by simp [Method.arity])
  · cases method with
    | contains | startsWith | endsWith => rfl
    | equals ignoreCase => cases ignoreCase <;> rfl
    | _ => exact absurd hone (by simp [Method.arity])

theorem wellGrouped_phrase {method : Method} {receiver : Phrase} {arguments : List Phrase}
    (arity : arguments.length = method.arity) :
    (method.phrase receiver arguments).WellGrouped ↔
      (receiver.WellGrouped ∧ ∀ a ∈ arguments, a.WellGrouped) ∧
        method.takes receiver.level (arguments.map Phrase.level) = true := by
  -- the levels that a method takes are those of the operator it is written with
  rcases arguments_of_arity arity with ⟨hnone, rfl⟩ | ⟨hone, argument, rfl⟩
  · cases method with
    | toUpper | toLower | hasValue | value => simp [phrase, takes]
    | _ => exact absurd hnone (by simp [Method.arity])
  · cases method with
    | contains | startsWith | endsWith =>
      simp [phrase, takes, Phrase.matching, Phrase.anyText, Operator.level]
      tauto
    | equals ignoreCase =>
      cases ignoreCase with
      | false =>
        simp [phrase, takes, Operator.level]
        tauto
      | true => simp [phrase, takes, Operator.level, Phrase.level]
    | _ => exact absurd hone (by simp [Method.arity])

end Method

namespace Phrase

/-- A null literal on the right binds as tightly as any operand. -/
theorem wellGrouped_comparison {op : Comparison} {left right : Phrase} {rightNull : Bool}
    (hright : rightNull = true → right.WellGrouped ∧ right.level = 0) :
    (comparison op left right rightNull).WellGrouped ↔
      (left.WellGrouped ∧ right.WellGrouped) ∧ left.level ≤ 1 ∧ right.level = 0 := by
  rw [comparison.eq_def]
  split
  · rw [wellGrouped_nullTest]
    have := hright rfl
    tauto
  · rw [wellGrouped_nullTest]
    have := hright rfl
    tauto
  · rw [wellGrouped_binary, Operator.level, Nat.lt_one_iff]
    tauto

theorem wellGrouped_foldl {op : Operator} {first : Phrase} {rest : List Phrase}
    (hfirst : first.level ≤ op.level) (hrest : ∀ e ∈ rest, e.level < op.level) :
    (rest.foldl (.binary op) first).WellGrouped ↔
      first.WellGrouped ∧ ∀ e ∈ rest, e.WellGrouped := by
  induction rest generalizing first with
  | nil => simp
  | cons next rest ih =>
    have hnext := hrest next (by simp)
    rw [List.foldl_cons, ih (Nat.le_refl _) fun e he => hrest e (by simp [he]), wellGrouped_binary]
    simp [hfirst, hnext, and_assoc]

theorem wellGrouped_joined {op : Connective} {es : List Phrase} (h : ∀ e ∈ es, e.level ≤ 2) :
    (joined op.operator es).WellGrouped ↔ ∀ e ∈ es, e.WellGrouped := by
  have hlevel : 2 < op.operator.level := by cases op <;> decide
  cases es with
  | nil => simp [joined]
  | cons first rest =>
    rw [joined, wellGrouped_foldl]
    · simp
    · have := h first (by simp)
      omega
    · intro e he
      have := h e (by simp [he])
      omega

end Phrase

namespace Expr

variable {m : RowModel} {declared : List String}

theorem level_phrase {e : Expr} (he : e.Sound declared) : (e.phrase .group m).level = e.level := by
  induction he with
  | field property => rfl
  | param known => rfl
  | literal noText => rfl
  | now clock => cases clock <;> rfl
  | compare _ _ _ _ =>
    rw [phrase]
    split_ifs <;> rfl
  | logical _ _ _ => rfl
  | not _ _ => rfl
  | call arity _ _ ih _ =>
    rename_i method receiver arguments _ _
    rw [phrase, phraseOfList_eq_map, Method.level_phrase (by simpa using arity), ih]
    rfl

/-- The phrase of a null literal is well grouped, as it must be on the right of a comparison. -/
theorem phrase_of_isNull {e : Expr} (h : e.isNull = true) (wrap : Phrase → Phrase) (m : RowModel) :
    (e.phrase wrap m).WellGrouped ∧ (e.phrase wrap m).level = 0 := by
  obtain rfl := isNull_iff.mp h
  exact ⟨.leaf _, rfl⟩

/-- An expression keeps its grouping if and only if its phrase is well grouped. -/
theorem wellGrouped_phrase {e : Expr} (he : e.Sound declared) :
    (e.phrase .group m).WellGrouped ↔ e.keepsGrouping = true := by
  induction he with
  | field property => simp [phrase, keepsGrouping]
  | param known => simp [phrase, keepsGrouping]
  | literal noText => simp [phrase, keepsGrouping]
  | now clock => cases clock <;> simp [phrase, keepsGrouping]
  | compare first second ihleft ihright =>
    rename_i op left right
    rw [phrase, keepsGrouping]
    split_ifs with hswap
    · -- the null literal changes sides, and stands alone on either
      have hleft : left.isNull = true := by
        rw [Bool.and_eq_true] at hswap
        exact hswap.1
      rw [Phrase.wellGrouped_group,
        Phrase.wellGrouped_comparison fun _ => phrase_of_isNull hleft .group m,
        level_phrase second, level_phrase first, ihleft, ihright]
      obtain rfl := isNull_iff.mp hleft
      simp [keepsGrouping, level]
    · rw [Phrase.wellGrouped_group,
        Phrase.wellGrouped_comparison fun hright => phrase_of_isNull hright .group m,
        level_phrase first, level_phrase second, ihleft, ihright]
      simp
  | logical some each ih =>
    rename_i op operands
    rw [phrase, keepsGrouping, phraseOfList_eq_map, Phrase.wellGrouped_group,
      Phrase.wellGrouped_joined, allKeepGrouping_iff]
    · simpa using forall₂_congr ih
    · -- no operand of a connective is a connective without parentheses
      intro p hp
      obtain ⟨e, he, rfl⟩ := List.mem_map.mp hp
      rw [level_phrase (each e he)]
      exact e.level_le_two
  | not inner ih =>
    rw [phrase, keepsGrouping, Phrase.wellGrouped_not, level_phrase inner, ih]
    simp [level_le_two]
  | call arity inner each ih iharguments =>
    rename_i method receiver arguments
    have hlevels : (arguments.map (phrase .group m)).map Phrase.level = arguments.map level := by
      rw [List.map_map]
      exact List.map_congr_left fun e he => level_phrase (each e he)
    rw [phrase, keepsGrouping, phraseOfList_eq_map,
      Method.wellGrouped_phrase (by simpa using arity), level_phrase inner, hlevels, ih,
      Bool.and_eq_true, Bool.and_eq_true, allKeepGrouping_iff]
    simp [forall₂_congr iharguments]

end Expr

/-! ### Conditions as they are read -/

/-- The condition of an accepted filter is read with the operators of its expression if and only if
every operand binds as tightly as its place asks for. -/
theorem Filter.Accepted.read_sql_iff {f : Filter} (hf : f.Accepted) {m : RowModel} {text : String}
    (h : f.sql m = .ok text) :
    (Condition.ofText text).map Phrase.bare = some (f.expr.grouping m) ↔
      f.expr.keepsGrouping = true := by
  rw [← Expr.wellGrouped_phrase hf.sound (m := m), Condition.ofText, hf.scan_sql h,
    Option.bind_some, ← Expr.bare_phrase]
  constructor
  · intro hread
    -- what is read has the spelling of the filter's phrase, and now its operators too
    obtain ⟨t, ht, hbare⟩ := Option.map_eq_some_iff.mp hread
    obtain ⟨hgrouped, hpieces⟩ := Condition.read_eq_some.mp ht
    obtain rfl := Phrase.eq_of_bare_of_pieces hbare hpieces
    exact hgrouped
  · intro hgrouped
    rw [Condition.read_eq_some.mpr ⟨hgrouped, rfl⟩]
    rfl

/-- A table of two columns of numbers. -/
def RowModel.pair : RowModel :=
  ⟨"Pair", "pair",
    [{ property := "A", host := ⟨.i32, false⟩ }, { property := "B", host := ⟨.i32, false⟩ }]⟩

/-- A negation on the left of a comparison, as in `row => !row.A < row.B`. -/
def Filter.negatedOperand : Filter :=
  ⟨.compare .lt (.not (.field "A")) (.field "B"), []⟩

/-- A negated operand is read as the negation of the whole comparison. -/
theorem Filter.read_negatedOperand :
    Filter.negatedOperand.Accepted ∧
      Filter.negatedOperand.sql .pair = .ok "(NOT `A` < `B`)" ∧
      (Condition.ofText "(NOT `A` < `B`)").map Phrase.bare ≠
        some (Filter.negatedOperand.expr.grouping .pair) := by
  have hparse : Filter.parse "row => !row.A < row.B" [] = .ok Filter.negatedOperand := rfl
  have haccepted : Filter.negatedOperand.Accepted := .parse hparse
  have hsql : Filter.negatedOperand.sql .pair = .ok "(NOT `A` < `B`)" := rfl
  refine ⟨haccepted, hsql, fun hread => ?_⟩
  exact absurd ((haccepted.read_sql_iff hsql).mp hread) (by decide)

end TypedSql
