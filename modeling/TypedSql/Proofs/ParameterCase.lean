/-
Names of parameters in any letter case.

The server takes two parameters of a routine for one where their names differ in letter case only.
Names of paging are kept apart in that sense, other names only where they are spelled the same: a
filter may declare `x` beside `X`, or a parameter `id` beside the value of a column that is bound as
`Id`.

* `StatementRequest.parameters_ok` — the three sources of the parameters of a statement: bound
  columns, the filter, and paging;
* `StatementRequest.distinct_iff` — the parameters are distinct in any letter case unless the filter
  names one like another one, or like a bound column.
-/
import TypedSql.Proofs.Parameters
import TypedSql.Proofs.ProcedureText

namespace TypedSql

/-! ### Letter case -/

/-- No two names in a list are the same in any letter case. -/
def DistinctIgnoringCase (names : List String) : Prop :=
  names.Pairwise fun a b => Text.sameIgnoringCase a b = false

theorem sameIgnoringCase_iff {a b : String} :
    Text.sameIgnoringCase a b = true ↔ Text.lower a.toList = Text.lower b.toList := by
  rw [Text.sameIgnoringCase, beq_iff_eq]

/-- Of names that are spelled differently, no two may be the same in any letter case. -/
theorem distinctIgnoringCase_iff {names : List String} (h : names.Nodup) :
    DistinctIgnoringCase names ↔
      ∀ a ∈ names, ∀ b ∈ names, Text.sameIgnoringCase a b = true → a = b := by
  have hlower : DistinctIgnoringCase names ↔ (names.map fun n => Text.lower n.toList).Nodup := by
    simp only [DistinctIgnoringCase, List.Nodup, List.pairwise_map, ne_eq, ← sameIgnoringCase_iff,
      Bool.not_eq_true]
  rw [hlower, List.nodup_map_iff_inj_on h]
  simp only [sameIgnoringCase_iff]

theorem DistinctIgnoringCase.nodup {names : List String} (h : DistinctIgnoringCase names) :
    names.Nodup := by
  refine h.imp ?_
  rintro a b hab rfl
  exact absurd ((Text.sameIgnoringCase_refl a).symm.trans hab) (by simp)

/-- A reserved name is reserved in any letter case. -/
theorem isReservedParameter_congr {a b : String} (h : Text.sameIgnoringCase a b = true) :
    isReservedParameter a = isReservedParameter b := by
  simp only [isReservedParameter, Text.sameIgnoringCase, sameIgnoringCase_iff.mp h]

theorem sameIgnoringCase_routineParameterName (a b : String) :
    Text.sameIgnoringCase (routineParameterName a) (routineParameterName b) =
      Text.sameIgnoringCase a b := by
  have hname (n : String) : Text.lower (routineParameterName n).toList =
      ['p', '_'] ++ Text.lower n.toList := by
    simp [routineParameterName, Text.lower]
  rw [Text.sameIgnoringCase, Text.sameIgnoringCase, hname, hname, Bool.eq_iff_iff, beq_iff_eq,
    beq_iff_eq, List.append_cancel_left_eq]

/-- The prefix of routine parameters leaves letter case alone. -/
theorem Procedure.distinctIgnoringCase_iff {database name : String} {s : Statement} {p : Procedure}
    (h : ofStatement database name s = .ok p) :
    DistinctIgnoringCase (p.parameters.map RoutineParameter.name) ↔
      DistinctIgnoringCase (s.parameters.map Parameter.name) := by
  obtain ⟨-, -, -, routine, htakes, rfl⟩ := ofStatement_ok.mp h
  have hnames : routine.map RoutineParameter.name =
      (s.parameters.map Parameter.name).map routineParameterName := by
    rw [List.map_map, ← List.forall₂_eq_eq_eq, List.forall₂_map_left_iff, List.forall₂_map_right_iff]
    exact htakes.flip.imp fun r q hr => hr.2.1
  simp only [DistinctIgnoringCase, hnames, List.pairwise_map, sameIgnoringCase_routineParameterName]

/-! ### Requests -/

/-- What a compiler can be asked to build. -/
inductive StatementRequest where
  | selectTop (filter : Option Filter) (order : Option OrderBy)
  | selectPage (order : OrderBy) (filter : Option Filter)
  | count (filter : Option Filter)
  | insert
  | update (filter : Filter)
  | delete (filter : Filter)
  | createTable
  | addColumn (property : String)
  | dropColumn (table column : String)
  | dropProcedure (name : String)

namespace StatementRequest

/-- The statement that a request is answered with. -/
def build (c : Compiler) (m : RowModel) : StatementRequest → Except CompileError Statement
  | selectTop filter order => c.selectTop m filter order
  | selectPage order filter => c.selectPage m order filter
  | count filter => c.count m filter
  | insert => c.insert m
  | update filter => c.update m filter
  | delete filter => c.delete m filter
  | createTable => c.createTable m
  | addColumn property => c.addColumn m property
  | dropColumn table column => TypedSql.dropColumn c.database table column
  | dropProcedure name => Procedure.drop c.database name

/-- The filter that a request comes with. -/
def filter? : StatementRequest → Option Filter
  | selectTop filter _ | selectPage _ filter | count filter => filter
  | update filter | delete filter => some filter
  | insert | createTable | addColumn _ | dropColumn _ _ | dropProcedure _ => none

/-- The parameters that the filter of a request declares. -/
def filterNames (r : StatementRequest) : List String :=
  r.filter?.elim [] fun f => f.params.map FilterParam.name

/-- The properties of a model whose values a request binds to columns. -/
def boundNames (m : RowModel) : StatementRequest → List String
  | insert => (m.insertedFields.filter fun f => !f.isStamped).map Field.property
  | update _ => (m.updatedFields.filter fun f => !f.isStamped).map Field.property
  | _ => []

/-- The parameters by which a request pages through rows. -/
def pagingNames : StatementRequest → List String
  | selectTop _ _ => [countName]
  | selectPage _ _ => [ascendingName, startName, countName]
  | _ => []

variable {c : Compiler} {m : RowModel} {r : StatementRequest} {s : Statement}

theorem boundNames_sublist (m : RowModel) (r : StatementRequest) :
    (r.boundNames m).Sublist (m.fields.map Field.property) := by
  cases r with
  | insert => exact (List.filter_sublist.trans List.filter_sublist).map _
  | update filter => exact (List.filter_sublist.trans List.filter_sublist).map _
  | _ => exact List.nil_sublist _

theorem pagingNames_sublist (r : StatementRequest) :
    r.pagingNames.Sublist [ascendingName, startName, countName] := by
  cases r with
  | selectTop filter order => exact .cons _ (.cons _ (.refl _))
  | selectPage order filter => exact .refl _
  | _ => exact List.nil_sublist _

theorem isReservedParameter_pagingNames {n : String} (h : n ∈ r.pagingNames) :
    isReservedParameter n = true := by
  have hall : [ascendingName, startName, countName].all isReservedParameter = true := by decide
  exact List.all_eq_true.mp hall n (r.pagingNames_sublist.subset h)

/-- What stands behind the bound columns: the parameters of the filter that are not bound already,
each once. -/
def Adds (r : StatementRequest) (m : RowModel) (added : List String) : Prop :=
  added.Nodup ∧ ∀ n, n ∈ added ↔ n ∈ r.filterNames ∧ n ∉ r.boundNames m

theorem exists_adds_of_filterParts {filter : Option Filter} {conditions : List (List Lexeme)}
    {parameters : List Parameter} (h : filterParts m filter = .ok (conditions, parameters)) :
    (parameters.map Parameter.name).Nodup ∧ ∀ n, n ∈ parameters.map Parameter.name ↔
      n ∈ filter.elim [] fun f => f.params.map FilterParam.name := by
  obtain ⟨rfl, -, rfl⟩ | ⟨f, condition, rfl, -, -, hadded⟩ := filterParts_ok h
  · simp
  · obtain ⟨added, rfl, hnodup, hmem⟩ := addFilterParams_ok hadded
    exact ⟨hnodup, fun n => (hmem n).trans (and_iff_left List.not_mem_nil)⟩

/-- Bound columns are named like no parameter of paging. -/
theorem isReservedParameter_of_assignments {fields : List Field} {written : List Assignment}
    {parameters : List Parameter} (h : assignments fields = .ok (written, parameters)) {n : String}
    (hn : n ∈ (fields.filter fun f => !f.isStamped).map Field.property) :
    isReservedParameter n = false := by
  obtain ⟨f, hf, rfl⟩ := List.mem_map.mp hn
  rw [List.mem_filter] at hf
  obtain ⟨p, -, hp⟩ := (assignments_agree h).2.2 f hf.1 (by simpa using hf.2)
  exact (parameter_ok hp).1

/-- The parameters of a statement: the values of columns, what the filter adds to them, and those of
paging. -/
theorem parameters_ok (h : r.build c m = .ok s) :
    (∃ added, s.parameters.map Parameter.name = r.boundNames m ++ added ++ r.pagingNames ∧
      r.Adds m added) ∧ ∀ n ∈ r.boundNames m, isReservedParameter n = false := by
  have hplain : r.boundNames m = [] → r.filterNames = [] → r.pagingNames = [] → s.parameters = [] →
      (∃ added, s.parameters.map Parameter.name = r.boundNames m ++ added ++ r.pagingNames ∧
        r.Adds m added) ∧ ∀ n ∈ r.boundNames m, isReservedParameter n = false := by
    intro hbound hfilter hpaging hnone
    simp only [Adds, hbound, hfilter, hpaging, hnone]
    exact ⟨⟨[], rfl, List.nodup_nil, by simp⟩, by simp⟩
  cases r with
  | selectTop filter order =>
    obtain ⟨items, table, conditions, parameters, rowOrder, count, -, hparts, -, hcount, rfl⟩ :=
      Compiler.selectTop_ok h
    obtain ⟨hnodup, hmem⟩ := exists_adds_of_filterParts hparts
    refine ⟨⟨parameters.map Parameter.name, ?_, hnodup, fun n => ?_⟩, by simp [boundNames]⟩
    · simp [Statement.ofBody, Statement.ofLexemes, boundNames, pagingNames, ofHost_ok hcount]
    · exact (hmem n).trans (and_iff_left List.not_mem_nil).symm
  | selectPage order filter =>
    obtain ⟨keyField, key, items, table, conditions, parameters, ascending, start, count, -, -, -,
      hparts, hascending, hstart, hcount, rfl⟩ := Compiler.selectPage_ok h
    obtain ⟨hnodup, hmem⟩ := exists_adds_of_filterParts hparts
    refine ⟨⟨parameters.map Parameter.name, ?_, hnodup, fun n => ?_⟩, by simp [boundNames]⟩
    · simp [Statement.ofBody, Statement.ofLexemes, boundNames, pagingNames, ofHost_ok hascending,
        ofHost_ok hstart, ofHost_ok hcount]
    · exact (hmem n).trans (and_iff_left List.not_mem_nil).symm
  | count filter =>
    obtain ⟨table, conditions, parameters, -, hparts, rfl⟩ := Compiler.count_ok h
    obtain ⟨hnodup, hmem⟩ := exists_adds_of_filterParts hparts
    refine ⟨⟨parameters.map Parameter.name, ?_, hnodup, fun n => ?_⟩, by simp [boundNames]⟩
    · simp [Statement.ofBody, Statement.ofLexemes, boundNames, pagingNames]
    · exact (hmem n).trans (and_iff_left List.not_mem_nil).symm
  | insert =>
    obtain ⟨table, written, parameters, -, hwritten, rfl⟩ := Compiler.insert_ok h
    refine ⟨⟨[], ?_, List.nodup_nil, by simp [filterNames, filter?]⟩,
      fun n => isReservedParameter_of_assignments hwritten⟩
    simp [Statement.ofBody, Statement.ofLexemes, boundNames, pagingNames,
      (assignments_agree hwritten).2.1]
  | update filter =>
    obtain ⟨table, written, own, condition, parameters, -, hwritten, -, hadded, rfl⟩ :=
      Compiler.update_ok h
    obtain ⟨added, rfl, hnodup, hmem⟩ := addFilterParams_ok hadded
    have hown := (assignments_agree hwritten).2.1
    refine ⟨⟨added.map Parameter.name, ?_, hnodup, fun n => ?_⟩,
      fun n => isReservedParameter_of_assignments hwritten⟩
    · simp [Statement.ofBody, Statement.ofLexemes, boundNames, pagingNames, hown]
    · rw [hmem, hown]
      rfl
  | delete filter =>
    obtain ⟨table, condition, parameters, -, -, hadded, rfl⟩ := Compiler.delete_ok h
    obtain ⟨added, rfl, hnodup, hmem⟩ := addFilterParams_ok hadded
    refine ⟨⟨_, ?_, hnodup, fun n => hmem n⟩, by simp [boundNames]⟩
    simp [Statement.ofBody, Statement.ofLexemes, boundNames, pagingNames]
  | createTable =>
    obtain ⟨_, _, -, -, rfl⟩ := Compiler.createTable_ok h
    exact hplain rfl rfl rfl rfl
  | addColumn property =>
    obtain ⟨_, _, _, _, _, -, -, -, -, -, rfl⟩ := Compiler.addColumn_ok h
    exact hplain rfl rfl rfl rfl
  | dropColumn table column =>
    obtain ⟨-, -, -, rfl⟩ := dropColumn_ok h
    exact hplain rfl rfl rfl rfl
  | dropProcedure name =>
    obtain ⟨-, -, rfl⟩ := dropProcedure_ok h
    exact hplain rfl rfl rfl rfl

theorem distinct_pagingNames (r : StatementRequest) : DistinctIgnoringCase r.pagingNames := by
  have hall : DistinctIgnoringCase [ascendingName, startName, countName] := by
    unfold DistinctIgnoringCase
    decide
  exact hall.sublist r.pagingNames_sublist

theorem notReserved_filterNames (accepted : ∀ f ∈ r.filter?, f.Accepted) :
    ∀ n ∈ r.filterNames, isReservedParameter n = false := by
  rw [filterNames]
  cases hfilter : r.filter? with
  | none => simp
  | some f => exact (accepted f hfilter).notReserved

/-- Neither the filter nor a bound column has a name of paging. -/
theorem notReserved (accepted : ∀ f ∈ r.filter?, f.Accepted) (h : r.build c m = .ok s) :
    ∀ n ∈ r.filterNames ++ r.boundNames m, isReservedParameter n = false :=
  List.forall_mem_append.mpr ⟨notReserved_filterNames accepted, (parameters_ok h).2⟩

/-- No name is listed twice, and those listed come from the filter, the bound columns or paging. -/
theorem mem_parameters (accepted : ∀ f ∈ r.filter?, f.Accepted) (h : r.build c m = .ok s)
    (hown : (r.boundNames m).Nodup) :
    (s.parameters.map Parameter.name).Nodup ∧ ∀ n, n ∈ s.parameters.map Parameter.name ↔
      n ∈ r.filterNames ++ r.boundNames m ∨ n ∈ r.pagingNames := by
  obtain ⟨⟨added, hnames, hadded, hmem⟩, -⟩ := parameters_ok h
  have hpaging : r.pagingNames.Nodup := r.pagingNames_sublist.nodup (by decide)
  rw [hnames]
  constructor
  · refine List.nodup_append'.mpr ⟨List.nodup_append'.mpr ⟨hown, hadded, ?_⟩, hpaging, ?_⟩
    · exact fun n hn hadd => ((hmem n).mp hadd).2 hn
    · intro n hn hpage
      have hsource : n ∈ r.filterNames ++ r.boundNames m := by
        obtain hn | hn := List.mem_append.mp hn
        · exact List.mem_append_right _ hn
        · exact List.mem_append_left _ ((hmem n).mp hn).1
      have hreserved := isReservedParameter_pagingNames hpage
      exact absurd (hreserved.symm.trans (notReserved accepted h n hsource)) (by simp)
  · intro n
    simp only [List.mem_append, hmem]
    tauto

/-- If the properties of the model are distinct in any letter case, the parameters of a statement
are so as well, and those of its procedure, if and only if no parameter of the filter is named like
another one, or like a bound column, in another letter case. -/
theorem distinct_iff (accepted : ∀ f ∈ r.filter?, f.Accepted) (h : r.build c m = .ok s)
    (hm : DistinctIgnoringCase (m.fields.map Field.property)) :
    (DistinctIgnoringCase (s.parameters.map Parameter.name) ↔
      ∀ a ∈ r.filterNames, ∀ b ∈ r.filterNames ++ r.boundNames m,
        Text.sameIgnoringCase a b = true → a = b) ∧
      ∀ database name p, Procedure.ofStatement database name s = .ok p →
        (DistinctIgnoringCase (p.parameters.map RoutineParameter.name) ↔
          DistinctIgnoringCase (s.parameters.map Parameter.name)) := by
  refine ⟨?_, fun database name p hp => Procedure.distinctIgnoringCase_iff hp⟩
  have hown : DistinctIgnoringCase (r.boundNames m) := hm.sublist (r.boundNames_sublist m)
  obtain ⟨hnodup, hmem⟩ := mem_parameters accepted h hown.nodup
  have hfree := notReserved accepted h
  rw [distinctIgnoringCase_iff hnodup]
  constructor
  · intro hinj a ha b hb
    exact hinj a ((hmem a).mpr (.inl (List.mem_append_left _ ha))) b ((hmem b).mpr (.inl hb))
  · intro hinj a ha b hb hsame
    have hreserved := isReservedParameter_congr hsame
    obtain ha | ha := (hmem a).mp ha <;> obtain hb | hb := (hmem b).mp hb
    · -- two bound columns differ because the properties of the model do
      obtain ha | ha := List.mem_append.mp ha
      · exact hinj a ha b hb hsame
      · obtain hb | hb := List.mem_append.mp hb
        · rw [Text.sameIgnoringCase_comm] at hsame
          exact (hinj b hb a (List.mem_append_right _ ha) hsame).symm
        · exact (distinctIgnoringCase_iff hown.nodup).mp hown a ha b hb hsame
    · rw [hfree a ha, isReservedParameter_pagingNames hb] at hreserved
      exact absurd hreserved (by simp)
    · rw [hfree b hb, isReservedParameter_pagingNames ha] at hreserved
      exact absurd hreserved (by simp)
    · have hpaging := distinct_pagingNames r
      exact (distinctIgnoringCase_iff hpaging.nodup).mp hpaging a ha b hb hsame

/-- A filter on two columns may declare `x` beside `X`, and the procedure of its statement has two
parameters of one name. -/
theorem distinct_twoCases :
    ∃ s p, build ⟨"app", by decide⟩
        ⟨"Pair", "pair", [{ property := "A", host := ⟨.i32, false⟩ },
          { property := "B", host := ⟨.i32, false⟩ }]⟩
        (.delete ⟨.logical .and [.compare .eq (.field "A") (.param "x"),
          .compare .eq (.field "B") (.param "X")], [⟨"x", ⟨.i32, false⟩⟩, ⟨"X", ⟨.i32, false⟩⟩]⟩) =
        .ok s ∧
      Procedure.ofStatement "app" "twins" s = .ok p ∧
      p.text false = "CREATE PROCEDURE `app`.`twins`(\n\tIN `p_x` int,\n\tIN `p_X` int\n)\n" ++
        "BEGIN\n\tDELETE FROM `app`.`pair`\n\tWHERE ((`A` = `p_x`) AND (`B` = `p_X`));\nEND;" ∧
      ¬ DistinctIgnoringCase (p.parameters.map RoutineParameter.name) := by
  have hparse : Filter.parse "row => row.A == x && row.B == X"
      [⟨"x", ⟨.i32, false⟩⟩, ⟨"X", ⟨.i32, false⟩⟩] =
        .ok ⟨.logical .and [.compare .eq (.field "A") (.param "x"),
          .compare .eq (.field "B") (.param "X")], [⟨"x", ⟨.i32, false⟩⟩, ⟨"X", ⟨.i32, false⟩⟩]⟩ := rfl
  have hmade : build ⟨"app", by decide⟩
      ⟨"Pair", "pair", [{ property := "A", host := ⟨.i32, false⟩ },
        { property := "B", host := ⟨.i32, false⟩ }]⟩
      (.delete ⟨.logical .and [.compare .eq (.field "A") (.param "x"),
        .compare .eq (.field "B") (.param "X")], [⟨"x", ⟨.i32, false⟩⟩, ⟨"X", ⟨.i32, false⟩⟩]⟩) =
        .ok ⟨"DELETE FROM `app`.`pair`\nWHERE ((`A` = @x) AND (`B` = @X));",
          [⟨"x", "int", none, .input⟩, ⟨"X", "int", none, .input⟩]⟩ := by
    decide +kernel
  have hp : Procedure.ofStatement "app" "twins"
      ⟨"DELETE FROM `app`.`pair`\nWHERE ((`A` = @x) AND (`B` = @X));",
        [⟨"x", "int", none, .input⟩, ⟨"X", "int", none, .input⟩]⟩ =
      .ok ⟨"app", "twins", [⟨.input, "p_x", "int"⟩, ⟨.input, "p_X", "int"⟩],
        ["DELETE FROM `app`.`pair`".toList,
          "WHERE ((`A` = `p_x`) AND (`B` = `p_X`));".toList]⟩ := by
    decide +kernel
  obtain ⟨hstatement, hprocedure⟩ := distinct_iff (fun f hf => by
    obtain rfl := Option.some.inj hf
    exact .parse hparse) hmade (by unfold DistinctIgnoringCase; decide)
  refine ⟨_, _, hmade, hp, by decide +kernel, fun hdistinct => ?_⟩
  have hinj := hstatement.mp ((hprocedure "app" "twins" _ hp).mp hdistinct)
  exact absurd (hinj "x" (by decide) "X" (by decide) (by decide)) (by decide)

end StatementRequest

end TypedSql
