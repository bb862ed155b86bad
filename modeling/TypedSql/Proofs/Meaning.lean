/-
What a filter's condition means.

Values, the functions of the server and the numbers with a point or an exponent are given by an
interpretation, and rows and parameters by an environment. NULL is no value, and truth has three
values: an unknown one where NULL decides.

* `Expr.value_phrase` — the phrase of an expression has the value of the expression;
* `Filter.Accepted.truth_sql` — so the text of an accepted filter, read as the server reads it,
  holds where the expression holds, if the operands of comparisons and methods are values or
  stand in parentheses (`Expr.operandsStandAlone`).
-/
import TypedSql.Proofs.Grouping

namespace TypedSql

/-! ### Interpretations -/

/-- The values of a server and what it makes of them. -/
structure Interpretation (V : Type) where
  ofBool : Bool → V
  holds : V → Bool
  holds_ofBool : ∀ b, holds (ofBool b) = b
  ofInt : Int → V
  /-- A number with a point or an exponent, from its spelling. -/
  ofNumeral : String → V
  ofText : String → V
  compare : Comparison → V → V → Bool
  like : Option V → Option V → Option V
  upper : Option V → Option V
  lower : Option V → Option V
  concat : List (Option V) → Option V
  clock : Clock → V

/-- The columns of a row and the bound parameters. -/
structure Environment (V : Type) where
  column : String → Option V
  parameter : String → Option V

/-- The truth value of an operand that decides alone. -/
def Connective.absorbing : Connective → Bool
  | and => false
  | or => true

/-- The truth of operands joined by a connective: one may decide; otherwise an unknown one leaves
the outcome unknown. -/
def Connective.combine (op : Connective) (ts : List (Option Bool)) : Option Bool :=
  if some op.absorbing ∈ ts then some op.absorbing
  else if none ∈ ts then none
  else some !op.absorbing

theorem Connective.combine_combine (op : Connective) (t t' : Option Bool)
    (ts : List (Option Bool)) :
    op.combine (op.combine [t, t'] :: ts) = op.combine (t :: t' :: ts) := by
  cases op <;> rcases t with _ | _ | _ <;> rcases t' with _ | _ | _ <;>
    simp [combine, absorbing]

namespace Interpretation

variable {V : Type} (i : Interpretation V)

/-- The truth of a value. -/
def truth (v : Option V) : Option Bool :=
  v.map i.holds

/-- A truth value as a value. -/
def ofTruth (t : Option Bool) : Option V :=
  t.map i.ofBool

@[simp] theorem truth_ofTruth (t : Option Bool) : i.truth (i.ofTruth t) = t := by
  cases t <;> simp [truth, ofTruth, i.holds_ofBool]

/-- A comparison is unknown where an operand is NULL. -/
def compared (op : Comparison) (x y : Option V) : Option V := do
  let a ← x
  let b ← y
  some (i.ofBool (i.compare op a b))

/-- A test for NULL, or for a value. -/
def nullTest (negated : Bool) (v : Option V) : Option V :=
  some (i.ofBool (if negated then v.isSome else v.isNone))

/-- A call of a function. -/
def call : String → List (Option V) → Option V
  | "UPPER", [v] => i.upper v
  | "LOWER", [v] => i.lower v
  | "CONCAT", vs => i.concat vs
  | "NOW", [] => some (i.clock .localTime)
  | "UTC_TIMESTAMP", [] => some (i.clock .utc)
  | _, _ => none

/-- The value of a numeral. -/
def numeral (negative : Bool) (cs : List Char) : V :=
  if cs.all Char.isDigit then
    let n : Int := Nat.ofDigitChars 10 cs 0
    i.ofInt (if negative then -n else n)
  else i.ofNumeral (String.ofList (if negative then '-' :: cs else cs))

/-- The value of an operator's application. -/
def apply : Operator → Option V → Option V → Option V
  | .compare op, x, y => i.compared op x y
  | .like, x, y => i.like x y
  | .and, x, y => i.ofTruth (Connective.and.combine [i.truth x, i.truth y])
  | .or, x, y => i.ofTruth (Connective.or.combine [i.truth x, i.truth y])

end Interpretation

section Values

variable {V : Type} (i : Interpretation V) (s : Environment V)

/-! ### The value of a phrase -/

/-- The value of an operand. -/
def Leaf.value : Leaf → Option V
  | column name => s.column name
  | placeholder name => s.parameter name
  | number negative spelling => some (i.numeral negative spelling.toList)
  | text content => some (i.ofText content)
  | constant none => none
  | constant (some b) => some (i.ofBool b)

namespace Phrase

mutual

/-- The value of a condition. -/
def value : Phrase → Option V
  | leaf operand => operand.value i s
  | call function arguments => i.call function (valueOfList arguments)
  | group inner => value inner
  | binary op left right => i.apply op (value left) (value right)
  | nullTest negated operand => i.nullTest negated (value operand)
  | not operand => i.ofTruth ((i.truth (value operand)).map (!·))

/-- The values of phrases. -/
def valueOfList : List Phrase → List (Option V)
  | [] => []
  | first :: rest => value first :: valueOfList rest

end

/-- The truth of a condition. -/
def truth (t : Phrase) : Option Bool :=
  i.truth (t.value i s)

end Phrase

/-! ### The value of an expression -/

/-- The value of a literal. -/
def Literal.value : Literal → Option V
  | null => none
  | bool b => some (i.ofBool b)
  | integer n => some (i.ofInt n.toInt)
  | number x => some (i.ofNumeral (Number.Style.literal.write Number.binary64 x))
  | text t => some (i.ofText t)

/-- The value of a method call, from those of its receiver and arguments. -/
def Method.result : Method → Option V → List (Option V) → Option V
  | contains, v, [w] => i.like v (i.concat [some (i.ofText "%"), w, some (i.ofText "%")])
  | startsWith, v, [w] => i.like v (i.concat [w, some (i.ofText "%")])
  | endsWith, v, [w] => i.like v (i.concat [some (i.ofText "%"), w])
  | equals false, v, [w] => i.compared .eq v w
  | equals true, v, [w] => i.compared .eq (i.lower v) (i.lower w)
  | toUpper, v, _ => i.upper v
  | toLower, v, _ => i.lower v
  | hasValue, v, _ => some (i.ofBool v.isSome)
  | _, v, _ => v

namespace Expr

mutual

/-- The value of an expression over a row of a model. Equality with a null literal, on either side,
asks whether the other side is NULL, and any other comparison with it is unknown. A connective of
one operand is that operand. -/
def value (m : RowModel) : Expr → Option V
  | field property => s.column (m.columnOf property)
  | param name => s.parameter name
  | literal l => l.value i
  | now clock => some (i.clock clock)
  | compare op left right =>
    let tested := if right.isNull then value m left else value m right
    match op, left.isNull || right.isNull with
    | .eq, true => some (i.ofBool tested.isNone)
    | .ne, true => some (i.ofBool tested.isSome)
    | op, _ => i.compared op (value m left) (value m right)
  | logical op operands =>
    match valueOfList m operands with
    | [v] => v
    | vs => i.ofTruth (op.combine (vs.map i.truth))
  | not operand => i.ofTruth ((i.truth (value m operand)).map (!·))
  | call method receiver arguments =>
    method.result i (value m receiver) (valueOfList m arguments)

/-- The values of expressions. -/
def valueOfList (m : RowModel) : List Expr → List (Option V)
  | [] => []
  | e :: rest => value m e :: valueOfList m rest

end

/-- The truth of an expression over a row of a model. -/
def truth (m : RowModel) (e : Expr) : Option Bool :=
  i.truth (e.value i s m)

end Expr

/-! ### Values of phrases of expressions -/

namespace Phrase

theorem valueOfList_eq_map (es : List Phrase) : valueOfList i s es = es.map (value i s) := by
  induction es with
  | nil => rfl
  | cons e es ih => rw [valueOfList, ih, List.map_cons]

/-- A connective takes its operands in from the left. -/
theorem value_foldl (op : Connective) (first next : Phrase) (rest : List Phrase) :
    (List.foldl (.binary op.operator) first (next :: rest)).value i s =
      i.ofTruth (op.combine ((first :: next :: rest).map (truth i s))) := by
  induction rest generalizing first next with
  | nil => cases op <;> rfl
  | cons third rest ih =>
    -- the first two operands are one operand of the rest, which may as well be two
    have hpair : truth i s (.binary op.operator first next) =
        op.combine [truth i s first, truth i s next] := by
      cases op <;> exact i.truth_ofTruth _
    rw [List.foldl_cons, ih, List.map_cons, List.map_cons, hpair, ← List.map_cons,
      Connective.combine_combine]
    rfl

theorem value_joined (op : Connective) {es : List Phrase} (h : es ≠ []) :
    (joined op.operator es).value i s =
      match es.map (value i s) with
      | [v] => v
      | vs => i.ofTruth (op.combine (vs.map i.truth)) := by
  match es, h with
  | [_], _ => rfl
  | first :: next :: rest, _ =>
    rw [joined, value_foldl]
    simp only [List.map_cons, List.map_map]
    rfl

end Phrase

@[simp] theorem Interpretation.compared_none_left (op : Comparison) (y : Option V) :
    i.compared op none y = none :=
  rfl

@[simp] theorem Interpretation.compared_none_right (op : Comparison) (x : Option V) :
    i.compared op x none = none := by
  cases x <;> rfl

theorem Method.value_phrase (method : Method) (receiver : Phrase) (arguments : List Phrase) :
    (method.phrase receiver arguments).value i s =
      method.result i (receiver.value i s) (arguments.map (Phrase.value i s)) := by
  rcases arguments with _ | ⟨argument, _ | ⟨other, more⟩⟩
  all_goals cases method with
  | equals ignoreCase => cases ignoreCase <;> rfl
  | _ => rfl

/-- A numeral with a character that is neither a digit nor a sign is taken as it is spelled. -/
theorem Leaf.value_ofNumeral_of_mark {cs : List Char} (h : ∃ c ∈ cs, Number.IsMark c) :
    (Leaf.ofNumeral cs).value i s = some (i.ofNumeral (String.ofList cs)) := by
  obtain ⟨c, hc, hdigit, hsign⟩ := h
  have hall : ∀ {ds : List Char}, c ∈ ds → ¬ ds.all Char.isDigit = true := by
    intro ds hmem hall
    exact absurd (List.all_eq_true.mp hall c hmem) (by simp [hdigit])
  rw [ofNumeral.eq_def]
  split
  · rename_i ds
    have hmem : c ∈ ds := (List.mem_cons.mp hc).resolve_left hsign
    rw [value, Interpretation.numeral, String.toList_ofList, if_neg (hall hmem)]
    rfl
  · rw [value, Interpretation.numeral, String.toList_ofList, if_neg (hall hc)]
    rfl

theorem Leaf.value_ofNumeral_toString (n : Int) :
    (Leaf.ofNumeral (toString n).toList).value i s = some (i.ofInt n) := by
  have hall : (Nat.toDigits 10 n.natAbs).all Char.isDigit = true :=
    List.all_eq_true.mpr Number.isDigit_toDigits
  by_cases h : 0 ≤ n
  · rw [Number.toList_toString_of_nonneg h,
      Condition.ofNumeral_of_numeral (Number.numeral_toDigits _), value, Interpretation.numeral,
      String.toList_ofList, if_pos hall, Nat.ofDigitChars_ten_toDigits]
    simp [abs_of_nonneg h]
  · rw [Number.toList_toString_of_neg (by omega), ofNumeral, value, Interpretation.numeral,
      String.toList_ofList, if_pos hall, Nat.ofDigitChars_ten_toDigits]
    simp [abs_of_neg (not_le.mp h)]

theorem Literal.value_leaf (l : Literal) : l.leaf.value i s = l.value i := by
  cases l with
  | null => rfl
  | bool b => rfl
  | integer n => exact Leaf.value_ofNumeral_toString i s n.toInt
  | number x =>
    rw [leaf, Leaf.value_ofNumeral_of_mark i s (Number.exists_mark_write _ _), String.ofList_toList]
    rfl
  | text t => rfl

namespace Expr

variable {m : RowModel} {declared : List String}

theorem valueOfList_eq_map (es : List Expr) : valueOfList i s m es = es.map (value i s m) := by
  induction es with
  | nil => rfl
  | cons e es ih => rw [valueOfList, ih, List.map_cons]

theorem value_of_isNull {e : Expr} (h : e.isNull = true) : e.value i s m = none := by
  obtain rfl := isNull_iff.mp h
  rfl

/-- Of the environment, the value of an expression takes columns and the parameters that the
expression names. -/
theorem value_congr {e : Expr} {s s' : Environment V} (hcolumn : s.column = s'.column)
    (hparameter : ∀ name ∈ e.paramNames, s.parameter name = s'.parameter name) :
    e.value i s m = e.value i s' m := by
  have hmap : ∀ {es : List Expr},
      (∀ e ∈ es, (∀ name ∈ e.paramNames, s.parameter name = s'.parameter name) →
        e.value i s m = e.value i s' m) →
      (∀ name ∈ paramNamesOfList es, s.parameter name = s'.parameter name) →
        valueOfList i s m es = valueOfList i s' m es := by
    intro es each hnames
    rw [valueOfList_eq_map, valueOfList_eq_map]
    refine List.map_congr_left fun e he => each e he fun name hname => hnames name ?_
    exact mem_paramNamesOfList.mpr ⟨e, he, hname⟩
  induction e using Expr.induction with
  | field property => rw [value, value, hcolumn]
  | param name => exact hparameter name (by simp [paramNames])
  | literal l => rfl
  | now clock => rfl
  | compare op left right ihleft ihright =>
    rw [paramNames, List.forall_mem_append] at hparameter
    simp only [value, ihleft hparameter.1, ihright hparameter.2]
  | logical op operands ih => rw [value, value, hmap ih hparameter]
  | not operand ih => rw [value, value, ih hparameter]
  | call method receiver arguments ih iharguments =>
    rw [paramNames, List.forall_mem_append] at hparameter
    rw [value, value, ih hparameter.1, hmap iharguments hparameter.2]

/-- A null literal may change places with what it is compared to: a comparison with it is a null
test, or unknown. -/
theorem value_phrase_compare {op : Comparison} {left right : Expr}
    (ihleft : (left.phrase .group m).value i s = left.value i s m)
    (ihright : (right.phrase .group m).value i s = right.value i s m) :
    ((compare op left right).phrase .group m).value i s = (compare op left right).value i s m := by
  -- the null literals decide the order of the operands, and the operator whether there is a test
  cases hleft : left.isNull with
  | true =>
    have hnone := value_of_isNull i s hleft (m := m)
    cases hright : right.isNull with
    | true =>
      have hnone' := value_of_isNull i s hright (m := m)
      cases op <;> simp [phrase, value, hleft, hright, Phrase.value, Phrase.comparison,
        Interpretation.nullTest, Interpretation.apply, ihleft, hnone, hnone']
    | false =>
      cases op <;> simp [phrase, value, hleft, hright, Phrase.value, Phrase.comparison,
        Comparison.converse, Interpretation.nullTest, Interpretation.apply, ihleft, ihright, hnone]
  | false =>
    cases hright : right.isNull with
    | true =>
      have hnone := value_of_isNull i s hright (m := m)
      cases op <;> simp [phrase, value, hleft, hright, Phrase.value, Phrase.comparison,
        Interpretation.nullTest, Interpretation.apply, ihleft, ihright, hnone]
    | false =>
      cases op <;> simp [phrase, value, hleft, hright, Phrase.value, Phrase.comparison,
        Interpretation.apply, ihleft, ihright]

/-- The phrase of an expression has the value of the expression. -/
theorem value_phrase {e : Expr} (he : e.Sound declared) :
    (e.phrase .group m).value i s = e.value i s m := by
  have hmap : ∀ {es : List Expr}, (∀ e ∈ es, (e.phrase .group m).value i s = e.value i s m) →
      (es.map (phrase .group m)).map (Phrase.value i s) = es.map (value i s m) := by
    intro es each
    rw [List.map_map]
    exact List.map_congr_left each
  induction he with
  | field property => rfl
  | param known => rfl
  | literal noText => exact Literal.value_leaf i s _
  | now clock => cases clock <;> rfl
  | compare _ _ ihleft ihright =>
    rw [value_phrase_compare i s ihleft ihright]
  | logical some each ih =>
    rw [phrase, phraseOfList_eq_map, Phrase.value, Phrase.value_joined i s _ (by simpa using some),
      hmap ih, value, valueOfList_eq_map]
  | not _ ih => rw [phrase, Phrase.value, ih, value]
  | call _ _ _ ih iharguments =>
    rw [phrase, phraseOfList_eq_map, Method.value_phrase, hmap iharguments, ih, value,
      valueOfList_eq_map]

end Expr

end Values

/-! ### The meaning of a condition -/

namespace Expr

/-- A field, parameter, literal or clock, in its letter case or in another. -/
def isValue : Expr → Bool
  | field _ | param _ | literal _ | now _ => true
  | call .toUpper receiver _ | call .toLower receiver _ | call .value receiver _ => isValue receiver
  | _ => false

/-- A value, or an expression that is written in parentheses. -/
def standsAlone : Expr → Bool
  | compare .. | logical .. => true
  | e => e.isValue

mutual

/-- Whether the operands of comparisons and the receivers and arguments of methods stand alone. -/
def operandsStandAlone : Expr → Bool
  | field _ | param _ | literal _ | now _ => true
  | compare _ left right =>
    (left.standsAlone && operandsStandAlone left) && (right.standsAlone && operandsStandAlone right)
  | logical _ operands => allOperandsStandAlone operands
  | not operand => operandsStandAlone operand
  | call _ receiver arguments =>
    (receiver.standsAlone && operandsStandAlone receiver) &&
      (arguments.all standsAlone && allOperandsStandAlone arguments)

/-- Whether they do within every one of the expressions. -/
def allOperandsStandAlone : List Expr → Bool
  | [] => true
  | e :: rest => operandsStandAlone e && allOperandsStandAlone rest

end

theorem allOperandsStandAlone_iff {es : List Expr} :
    allOperandsStandAlone es = true ↔ ∀ e ∈ es, e.operandsStandAlone = true := by
  induction es with
  | nil => simp [allOperandsStandAlone]
  | cons e es ih => simp [allOperandsStandAlone, ih]

theorem level_of_isValue : ∀ {e : Expr}, e.isValue = true → e.level = 0
  | field _, _ | param _, _ | literal _, _ | now _, _ => rfl
  | call method receiver _, h => by
    cases method with
    | toUpper | toLower => rfl
    | value => exact level_of_isValue (e := receiver) h
    | _ => exact absurd h (by simp [isValue])
  | compare .., h | logical .., h | not _, h => absurd h (by simp [isValue])

theorem level_of_standsAlone {e : Expr} (h : e.standsAlone = true) : e.level = 0 := by
  rw [standsAlone.eq_def] at h
  split at h
  · rfl
  · rfl
  · exact level_of_isValue h

/-- Methods take operands that stand alone. -/
theorem takes_of_standsAlone {receiver : Expr} {arguments : List Expr}
    (hreceiver : receiver.standsAlone = true) (harguments : arguments.all standsAlone = true)
    (method : Method) : method.takes receiver.level (arguments.map level) = true := by
  have hlevels : (arguments.map level).all (· == 0) = true := by
    rw [List.all_map, List.all_eq_true]
    intro e he
    simpa using level_of_standsAlone (List.all_eq_true.mp harguments e he)
  rw [level_of_standsAlone hreceiver]
  cases method with
  | equals ignoreCase => cases ignoreCase <;> simp [Method.takes, hlevels]
  | _ => simp [Method.takes]

theorem keepsGrouping_of_operandsStandAlone (e : Expr) (h : e.operandsStandAlone = true) :
    e.keepsGrouping = true := by
  have hall : ∀ {es : List Expr},
      (∀ e ∈ es, e.operandsStandAlone = true → e.keepsGrouping = true) →
        allOperandsStandAlone es = true → allKeepGrouping es = true := by
    intro es each h
    rw [allKeepGrouping_iff]
    exact fun e he => each e he (allOperandsStandAlone_iff.mp h e he)
  induction e using Expr.induction with
  | field property => rfl
  | param name => rfl
  | literal value => rfl
  | now clock => rfl
  | compare op left right ihleft ihright =>
    simp only [operandsStandAlone, Bool.and_eq_true] at h
    obtain ⟨⟨hleft, hinleft⟩, hright, hinright⟩ := h
    rw [keepsGrouping, ihleft hinleft, ihright hinright, level_of_standsAlone hleft,
      level_of_standsAlone hright]
    simp
  | logical op operands ih => exact hall ih h
  | not operand ih => exact ih h
  | call method receiver arguments ih iharguments =>
    simp only [operandsStandAlone, Bool.and_eq_true] at h
    obtain ⟨⟨hreceiver, hinreceiver⟩, harguments, hinarguments⟩ := h
    rw [keepsGrouping, ih hinreceiver, hall iharguments hinarguments,
      takes_of_standsAlone hreceiver harguments]
    rfl

end Expr

/-- A condition that keeps its grouping is read as a phrase with the value of the expression. -/
theorem Filter.Accepted.value_sql {f : Filter} (hf : f.Accepted)
    (hgrouping : f.expr.keepsGrouping = true) {m : RowModel} {text : String}
    (h : f.sql m = .ok text) :
    ∃ t, Condition.ofText text = some t ∧
      ∀ {V : Type} (i : Interpretation V) (s : Environment V),
        t.value i s = f.expr.value i s m := by
  refine ⟨f.expr.phrase .group m, ?_, fun i s => Expr.value_phrase i s hf.sound⟩
  rw [Condition.ofText, hf.scan_sql h, Option.bind_some]
  exact Condition.read_eq_some.mpr ⟨(Expr.wellGrouped_phrase hf.sound).mpr hgrouping, rfl⟩

/-- The condition of an accepted filter, read as the server reads it, holds where the expression
holds, and is unknown where that is unknown. -/
theorem Filter.Accepted.truth_sql {f : Filter} (hf : f.Accepted)
    (hoperands : f.expr.operandsStandAlone = true) {m : RowModel} {text : String}
    (h : f.sql m = .ok text) :
    ∃ t, Condition.ofText text = some t ∧
      ∀ {V : Type} (i : Interpretation V) (s : Environment V),
        t.truth i s = f.expr.truth i s m := by
  have hgrouping := Expr.keepsGrouping_of_operandsStandAlone f.expr hoperands
  obtain ⟨t, ht, hvalue⟩ := hf.value_sql hgrouping h
  exact ⟨t, ht, fun i s => congrArg i.truth (hvalue i s)⟩

/-- Whole numbers, with nothing said of texts. -/
def Interpretation.numbers : Interpretation Int where
  ofBool b := if b then 1 else 0
  holds n := n != 0
  holds_ofBool b := by cases b <;> rfl
  ofInt n := n
  ofNumeral _ := 0
  ofText _ := 0
  compare
    | .eq, a, b => a == b
    | .ne, a, b => a != b
    | .lt, a, b => a < b
    | .le, a, b => a ≤ b
    | .gt, a, b => b < a
    | .ge, a, b => b ≤ a
  like _ _ := none
  upper _ := none
  lower _ := none
  concat _ := none
  clock _ := 0

/-- A null literal on the left of one comparison, and a negation in front of the other. -/
theorem Filter.truth_nullAndNegation :
    ∃ t, Condition.ofText "((`A` IS NOT NULL) AND NOT (`B` < -2))" = some t ∧
      t.truth .numbers ⟨fun column => if column = "A" then some 7 else some 0, fun _ => none⟩ =
        some true := by
  have hparse : Filter.parse "row => null != row.A && !(row.B < -2)" [] =
      .ok ⟨.logical .and [.compare .ne (.literal .null) (.field "A"),
        .not (.compare .lt (.field "B") (.literal (.integer (-2))))], []⟩ := rfl
  obtain ⟨t, ht, htruth⟩ := (Filter.Accepted.parse hparse).truth_sql (by decide) (m := .pair) rfl
  exact ⟨t, ht, (htruth .numbers _).trans rfl⟩

end TypedSql
