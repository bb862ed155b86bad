/-
Names of routine parameters and names of columns.

In the body of a routine, a name that is that of a parameter in any letter case is the parameter,
also where a column has the name. The prefix of routine parameters keeps the two apart as long as no
column's name begins with it. A column may be named so, and so is the column of a property whose
first word is `p`: that of `PCount` is `P_COUNT`.

* `upperSnakeFrom_behindP_iff` — the properties whose columns begin with the prefix;
* `Field.sameIgnoringCase_routineName_iff` — the routine parameters that have the name of a column;
* `Statement.OfModel.shadows_iff` — the columns of a statement that its procedure takes for
  parameters.
-/
import TypedSql.Proofs.ColumnReferences
import TypedSql.Proofs.ProcedureText

namespace TypedSql

/-! ### Letter case -/

theorem eq_or_eq_toUpper {c d : Char} (h : c.toLower = d) : c = d ∨ c = d.toUpper := by
  cases hupper : c.isUpper with
  | false =>
    left
    rw [← h, Char.toLower_eq_of_not_isUpper (by simp [hupper])]
  | true =>
    right
    have hlower : ¬ c.isLower = true := Char.not_isLower_of_isUpper hupper
    rw [← h, Char.toUpper_toLower_eq_toUpper, Char.toUpper_eq_of_not_isLower hlower]

theorem toLower_eq_p_iff {c : Char} : c.toLower = 'p' ↔ c = 'p' ∨ c = 'P' := by
  constructor
  · exact eq_or_eq_toUpper
  · rintro (rfl | rfl) <;> rfl

theorem toLower_eq_underscore_iff {c : Char} : c.toLower = '_' ↔ c = '_' := by
  constructor
  · exact fun h => (eq_or_eq_toUpper h).elim id id
  · rintro rfl
    rfl

/-! ### Default names that begin with the prefix -/

/-- What stands behind the first word of a property, where that word is `p`. -/
inductive BehindP : List Char → List Char → Prop
  | underscore {p : Char} {tail : List Char} (letter : p = 'p' ∨ p = 'P') :
      BehindP (p :: '_' :: tail) tail
  | small {c : Char} {tail : List Char} (capital : c.isUpper = true) :
      BehindP ('p' :: c :: tail) (c :: tail)
  /-- Of several capitals, the last one begins a word, if a small letter is behind it. -/
  | capital {c d : Char} {tail : List Char} (capital : c.isUpper = true)
      (small : d.isLower = true) :
      BehindP ('P' :: c :: d :: tail) (c :: d :: tail)

theorem upperSnakeFrom_cons_cons (c d : Char) (rest : List Char) :
    upperSnakeFrom (some c) (d :: rest) =
      if startsWord (some c) d rest.head? then '_' :: upperSnakeFrom none (d :: rest)
      else upperSnakeFrom none (d :: rest) := by
  rw [upperSnakeFrom_none_cons]
  rfl

/-- An underscore starts no word, and ends none. -/
theorem upperSnakeFrom_underscore (rest : List Char) :
    upperSnakeFrom (some '_') rest = upperSnakeFrom none rest := by
  cases rest with
  | nil => rfl
  | cons c rest =>
    have hstart : startsWord (some '_') c rest.head? = false := by
      have hnot : ('_'.isLower || '_'.isDigit) = false ∧ '_'.isUpper = false := by decide
      simp [startsWord, hnot]
    rw [upperSnakeFrom_cons_cons, hstart, if_neg Bool.false_ne_true]

theorem behindP_of_startsWord {p c : Char} {rest : List Char} (letter : p = 'p' ∨ p = 'P')
    (h : startsWord (some p) c rest.head? = true) : BehindP (p :: c :: rest) (c :: rest) := by
  rw [startsWord, Bool.and_eq_true] at h
  obtain rfl | rfl := letter
  · exact .small h.1
  · cases rest with
    | nil => exact absurd h.2 (by decide)
    | cons d rest => exact .capital h.1 (by simpa using h.2)

/-- The default names that begin with the prefix are those of properties that begin with the word
`p`, and what stands behind the prefix is the name of what stands behind the word. -/
theorem upperSnakeFrom_behindP_iff {property tail : List Char} :
    (∃ p, (p = 'p' ∨ p = 'P') ∧ upperSnakeFrom none property = p :: '_' :: tail) ↔
      ∃ rest, BehindP property rest ∧ tail = upperSnakeFrom none rest := by
  constructor
  · rintro ⟨p, letter, heq⟩
    obtain _ | ⟨c, rest⟩ := property
    · exact absurd heq (by simp [upperSnakeFrom])
    rw [upperSnakeFrom_none_cons] at heq
    obtain ⟨hc, hrest⟩ := List.cons.inj heq
    have hletter : c = 'p' ∨ c = 'P' := by
      rw [← toLower_eq_p_iff, ← Char.toLower_toUpper_eq_toLower, hc, toLower_eq_p_iff]
      exact letter
    obtain _ | ⟨d, rest⟩ := rest
    · exact absurd hrest (by simp [upperSnakeFrom])
    rw [upperSnakeFrom_cons_cons] at hrest
    split_ifs at hrest with hstart
    · exact ⟨_, behindP_of_startsWord hletter hstart, (List.cons.inj hrest).2.symm⟩
    · rw [upperSnakeFrom_none_cons] at hrest
      obtain ⟨hd, htail⟩ := List.cons.inj hrest
      obtain rfl : d = '_' := by
        rw [← toLower_eq_underscore_iff, ← Char.toLower_toUpper_eq_toLower, hd]
        rfl
      exact ⟨rest, .underscore hletter, by rw [← htail, upperSnakeFrom_underscore]⟩
  · rintro ⟨rest, hbehind, rfl⟩
    refine ⟨'P', .inr rfl, ?_⟩
    cases hbehind with
    | underscore letter =>
      have hletter : ∀ p : Char, p = 'p' ∨ p = 'P' → p.toUpper = 'P' := by
        rintro p (rfl | rfl) <;> rfl
      have hstart (before after : Option Char) : startsWord before '_' after = false := by
        simp [startsWord]
      rw [upperSnakeFrom_none_cons, hletter _ letter, upperSnakeFrom_cons_cons, hstart,
        if_neg Bool.false_ne_true, upperSnakeFrom_none_cons, upperSnakeFrom_underscore]
      rfl
    | @small c tail capital =>
      have hstart : startsWord (some 'p') c tail.head? = true := by
        simp [startsWord, capital]
      rw [upperSnakeFrom_none_cons, upperSnakeFrom_cons_cons, if_pos hstart]
      rfl
    | @capital c d tail capital small =>
      have hstart : startsWord (some 'P') c (d :: tail).head? = true := by
        simp [startsWord, capital, small]
      rw [upperSnakeFrom_none_cons, upperSnakeFrom_cons_cons, if_pos hstart]
      rfl

/-! ### Columns that are named like routine parameters -/

/-- What stands behind the prefix of routine parameters in the name of a field's column. -/
inductive Field.BehindPrefix (f : Field) : String → Prop
  | named {p : Char} {tail : List Char} (letter : p = 'p' ∨ p = 'P')
      (column : f.column = some (String.ofList (p :: '_' :: tail))) :
      BehindPrefix f (String.ofList tail)
  | default {rest : List Char} (column : f.column = none)
      (property : BehindP f.property.toList rest) :
      BehindPrefix f (upperSnake (String.ofList rest))

theorem sameIgnoringCase_routineName_iff {name column : String} :
    Text.sameIgnoringCase (routineParameterName name) column = true ↔
      ∃ p tail, (p = 'p' ∨ p = 'P') ∧ column.toList = p :: '_' :: tail ∧
        Text.sameIgnoringCase name (String.ofList tail) = true := by
  have hname : Text.lower (routineParameterName name).toList =
      'p' :: '_' :: Text.lower name.toList := by
    simp [routineParameterName, Text.lower]
  simp only [Text.sameIgnoringCase, beq_iff_eq, hname, String.toList_ofList]
  constructor
  · intro h
    obtain ⟨p, rest, hcolumn, hp, hrest⟩ := List.map_eq_cons_iff.mp h.symm
    obtain ⟨u, tail, rfl, hu, htail⟩ := List.map_eq_cons_iff.mp hrest
    obtain rfl := toLower_eq_underscore_iff.mp hu
    exact ⟨p, tail, toLower_eq_p_iff.mp hp, hcolumn, htail.symm⟩
  · rintro ⟨p, tail, letter, hcolumn, htail⟩
    rw [hcolumn, htail, Text.lower, Text.lower, List.map_cons, List.map_cons,
      toLower_eq_p_iff.mpr letter]
    rfl

/-- The routine parameters that have the name of a field's column. -/
theorem Field.sameIgnoringCase_routineName_iff {f : Field} {name : String} :
    Text.sameIgnoringCase (routineParameterName name) f.columnName = true ↔
      ∃ rest, f.BehindPrefix rest ∧ Text.sameIgnoringCase name rest = true := by
  rw [TypedSql.sameIgnoringCase_routineName_iff]
  cases hcolumn : f.column with
  | some column =>
    rw [columnName, hcolumn, Option.getD_some]
    constructor
    · rintro ⟨p, tail, letter, hp, hname⟩
      exact ⟨_, .named letter (by rw [hcolumn, ← hp, String.ofList_toList]), hname⟩
    · rintro ⟨_, ⟨letter, hnamed⟩ | ⟨hdefault, -⟩, hname⟩
      · obtain rfl := Option.some.inj (hcolumn.symm.trans hnamed)
        exact ⟨_, _, letter, String.toList_ofList, hname⟩
      · exact absurd (hcolumn.symm.trans hdefault) (by simp)
  | none =>
    rw [columnName, hcolumn, Option.getD_none, upperSnake, String.toList_ofList]
    constructor
    · rintro ⟨p, tail, letter, hp, hname⟩
      obtain ⟨rest, hbehind, rfl⟩ := upperSnakeFrom_behindP_iff.mp ⟨p, letter, hp⟩
      exact ⟨_, .default hcolumn hbehind, by rwa [upperSnake, String.toList_ofList]⟩
    · rintro ⟨_, ⟨-, hnamed⟩ | ⟨-, hbehind⟩, hname⟩
      · exact absurd (hcolumn.symm.trans hnamed) (by simp)
      · obtain ⟨p, letter, hp⟩ := upperSnakeFrom_behindP_iff.mpr ⟨_, hbehind, rfl⟩
        rw [upperSnake, String.toList_ofList] at hname
        exact ⟨p, _, letter, hp, hname⟩

/-! ### Statements and their procedures -/

/-- A procedure takes a column for a routine parameter: there is one of the column's name, in any
letter case. -/
def Procedure.Shadows (p : Procedure) (column : String) : Prop :=
  ∃ r ∈ p.parameters, Text.sameIgnoringCase r.name column = true

/-- The routine parameters are those of the placeholders. -/
theorem Procedure.shadows_iff_placeholder {database name : String} {s : Statement} {p : Procedure}
    (hp : ofStatement database name s = .ok p) (hs : s.Agrees) {column : String} :
    p.Shadows column ↔ ∃ n ∈ s.placeholders,
      Text.sameIgnoringCase (routineParameterName n) column = true := by
  obtain ⟨-, -, -, routine, htakes, rfl⟩ := ofStatement_ok.mp hp
  constructor
  · rintro ⟨r, hr, hsame⟩
    obtain ⟨q, hq, -, hname, -⟩ := exists_mem_of_forall₂ htakes hr
    exact ⟨q.name, (hs _).mpr (List.mem_map_of_mem hq), by rwa [routineParameterName, ← hname]⟩
  · rintro ⟨n, hn, hsame⟩
    obtain ⟨q, hq, rfl⟩ := List.mem_map.mp ((hs n).mp hn)
    obtain ⟨r, hr, -, hname, -⟩ := exists_mem_of_forall₂ htakes.flip hq
    exact ⟨r, hr, by rwa [hname]⟩

/-- A statement that is built from a model. -/
inductive Statement.OfModel (m : RowModel) : Statement → Prop
  | onRows {s : Statement} (rows : s.OnRows m) : OfModel m s
  | createTable {c : Compiler} {s : Statement} (made : c.createTable m = .ok s) : OfModel m s
  | addColumn {c : Compiler} {property : String} {s : Statement}
      (made : c.addColumn m property = .ok s) : OfModel m s

namespace Statement

variable {m : RowModel} {s : Statement}

/-- A statement that defines a table or a column has no parameters. -/
theorem OfModel.onRows_or_plain (h : s.OfModel m) :
    s.OnRows m ∨ s.parameters = [] ∧ s.placeholders = [] := by
  have plain (hparameters : s.parameters = []) (hbuilt : s.Built) :
      s.parameters = [] ∧ s.placeholders = [] := by
    refine ⟨hparameters, List.eq_nil_iff_forall_not_mem.mpr fun n hn => ?_⟩
    obtain ⟨p, hp, -⟩ := hbuilt.bound n hn
    rw [hparameters] at hp
    exact absurd hp List.not_mem_nil
  cases h with
  | onRows rows => exact .inl rows
  | createTable made =>
    obtain ⟨_, _, -, -, hs⟩ := Compiler.createTable_ok made
    exact .inr (plain (congrArg Statement.parameters hs) (.createTable made))
  | addColumn made =>
    obtain ⟨_, _, _, _, _, -, -, -, -, -, hs⟩ := Compiler.addColumn_ok made
    exact .inr (plain (congrArg Statement.parameters hs) (.addColumn made))

/-- The procedure of a statement takes a column that the statement refers to for a parameter if and
only if the column's name begins with the prefix, and what stands behind it is the name of a
placeholder, in any letter case. -/
theorem OfModel.shadows_iff {database name : String} {p : Procedure} (h : s.OfModel m)
    (hp : Procedure.ofStatement database name s = .ok p) {column : String}
    (hcolumn : column ∈ s.columns) :
    p.Shadows column ↔ ∃ f ∈ m.fields, f.columnName = column ∧ ∃ rest, f.BehindPrefix rest ∧
      ∃ n ∈ s.placeholders, Text.sameIgnoringCase n rest = true := by
  obtain hrows | ⟨hparameters, hnone⟩ := h.onRows_or_plain
  · rw [Procedure.shadows_iff_placeholder hp hrows.agrees.1]
    constructor
    · rintro ⟨n, hn, hsame⟩
      obtain ⟨f, hf, rfl⟩ := hrows.exists_field hcolumn
      obtain ⟨rest, hrest, hname⟩ := Field.sameIgnoringCase_routineName_iff.mp hsame
      exact ⟨f, hf, rfl, rest, hrest, n, hn, hname⟩
    · rintro ⟨f, -, rfl, rest, hrest, n, hn, hname⟩
      exact ⟨n, hn, Field.sameIgnoringCase_routineName_iff.mpr ⟨rest, hrest, hname⟩⟩
  · have hagrees : s.Agrees := fun n => by simp [hnone, hparameters]
    rw [Procedure.shadows_iff_placeholder hp hagrees]
    simp [hnone]

/-- The column of a property `PCount` is taken for the limit of the number of rows. -/
theorem shadows_limit :
    ∃ s p, s.OfModel ⟨"Pair", "pair", [{ property := "PCount", host := ⟨.i32, false⟩ }]⟩ ∧
      Procedure.ofStatement "app" "top" s = .ok p ∧
      p.text false = "CREATE PROCEDURE `app`.`top`(\n\tIN `p_Count` int\n)\nBEGIN\n\tSELECT\n" ++
        "\t\t`P_COUNT` AS `PCount`\n\tFROM `app`.`pair`\n\tLIMIT `p_Count`;\nEND;" ∧
      "P_COUNT" ∈ s.columns ∧ p.Shadows "P_COUNT" := by
  have hmade : Compiler.selectTop ⟨"app", by decide⟩
      ⟨"Pair", "pair", [{ property := "PCount", host := ⟨.i32, false⟩ }]⟩ none none =
        .ok ⟨"SELECT\n\t`P_COUNT` AS `PCount`\nFROM `app`.`pair`\nLIMIT @Count;",
          [⟨"Count", "int", none, .input⟩]⟩ := by
    decide +kernel
  have hmodel : Statement.OfModel _ _ := .onRows (.selectTop (by simp) hmade)
  have hp : Procedure.ofStatement "app" "top"
      ⟨"SELECT\n\t`P_COUNT` AS `PCount`\nFROM `app`.`pair`\nLIMIT @Count;",
        [⟨"Count", "int", none, .input⟩]⟩ =
      .ok ⟨"app", "top", [⟨.input, "p_Count", "int"⟩], ["SELECT".toList,
        "\t`P_COUNT` AS `PCount`".toList, "FROM `app`.`pair`".toList,
        "LIMIT `p_Count`;".toList]⟩ := by
    decide +kernel
  have hcolumn : "P_COUNT" ∈ Statement.columns
      ⟨"SELECT\n\t`P_COUNT` AS `PCount`\nFROM `app`.`pair`\nLIMIT @Count;",
        [⟨"Count", "int", none, .input⟩]⟩ := by
    decide +kernel
  have hbehind : Field.BehindPrefix { property := "PCount", host := ⟨.i32, false⟩ }
      (upperSnake (String.ofList "Count".toList)) := .default rfl (.capital rfl rfl)
  refine ⟨_, _, hmodel, hp, by decide +kernel, hcolumn, (hmodel.shadows_iff hp hcolumn).mpr ?_⟩
  exact ⟨_, List.mem_singleton.mpr rfl, by decide +kernel, _, hbehind, "Count", by decide +kernel,
    by decide +kernel⟩

end Statement

end TypedSql
