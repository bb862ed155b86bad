/-
The parameters of statements on rows.

A statement that reads or writes the rows of a model names its parameters in its text, and no
others: those of its filter, those of the columns that it writes, and those that page through rows.

* `names_lexemes` — a condition has a placeholder wherever its expression names a parameter;
* `addFilterParams_ok` — the parameters of a filter stand behind those that are there, each new name
  once;
* `Statement.OnRows.parameters_agree` — the names in the text are the names of the parameters, none
  of which is listed twice.
-/
import TypedSql.Proofs.Spacing

namespace TypedSql

open Lexeme (word mark blank space words placeholder qualified names)

/-! ### Placeholders of conditions -/

@[simp] theorem names_nil : names [] = [] :=
  rfl

@[simp] theorem names_append (xs ys : List Lexeme) : names (xs ++ ys) = names xs ++ names ys :=
  List.filterMap_append

theorem names_cons_none {l : Lexeme} (h : l.parameter? = none) (ls : List Lexeme) :
    names (l :: ls) = names ls :=
  List.filterMap_cons_none h

theorem names_joined {separator : List Lexeme} (h : names separator = [])
    (parts : List (List Lexeme)) : names (Lexeme.joined separator parts) = parts.flatMap names := by
  induction parts with
  | nil => rfl
  | cons first rest ih =>
    rw [List.flatMap_cons, ← ih]
    cases rest with
    | nil => simp [Lexeme.joined]
    | cons second rest =>
      rw [Lexeme.joined_cons_cons, names_append, names_append, h, List.append_nil]

theorem names_parenthesized (ls : List Lexeme) :
    names (mark "(" :: (ls ++ [mark ")"])) = names ls := by
  rw [names_cons_none rfl, names_append, names_cons_none rfl, names_nil, List.append_nil]

theorem names_sqlCall (function : String) (parts : List (List Lexeme)) :
    names (sqlCall function parts) = parts.flatMap names :=
  (names_parenthesized _).trans (names_joined rfl parts)

theorem names_binary (xs ys : List Lexeme) {operator : Lexeme} (h : operator.parameter? = none) :
    names (binary xs operator ys) = names xs ++ names ys := by
  rw [binary, names_append, names_append, names_cons_none rfl, names_cons_none h,
    names_cons_none rfl, names_nil, List.append_nil]

theorem names_nullTest (negated : Bool) : names (nullTest negated) = [] := by
  cases negated <;> rfl

theorem names_literal {value : Literal} {ls : List Lexeme} (h : value.lexemes = .ok ls) :
    names ls = [] := by
  cases value with
  | text value => exact absurd h (by simp [Literal.lexemes])
  | number value =>
    rw [Literal.lexemes] at h
    split_ifs at h
    obtain rfl := Except.ok.inj h
    rfl
  | _ =>
    obtain rfl := Except.ok.inj h
    rfl

theorem names_comparison {op : Comparison} {xs inner : List Lexeme}
    {ys : Except CompileError (List Lexeme)} {rightNull : Bool} {second : List String}
    (h : ComparisonLexemes op xs ys rightNull inner) (hnull : rightNull = true → second = [])
    (hsecond : ∀ {ls}, ys = .ok ls → names ls = second) : names inner = names xs ++ second := by
  cases h with
  | nullTest negated isNull _ => rw [names_append, names_nullTest, hnull isNull]
  | binary _ hys => rw [names_binary _ _ rfl, hsecond hys]

theorem names_method (method : Method) {receiver argument : List Lexeme}
    (h : method.arity = 0 → names argument = []) :
    names (method.lexemes receiver argument) = names receiver ++ names argument := by
  have hmatching : ∀ parts : List (List Lexeme), parts.flatMap names = names argument →
      names (binary receiver (word "LIKE") (sqlCall "CONCAT" parts)) =
        names receiver ++ names argument := by
    intro parts hparts
    rw [names_binary _ _ rfl, names_sqlCall, hparts]
  have hone : ∀ (function : String) (ls : List Lexeme), names (sqlCall function [ls]) = names ls :=
    fun function ls => (names_sqlCall function [ls]).trans (List.append_nil _)
  have hnone : method.arity = 0 → names receiver = names receiver ++ names argument := by
    intro harity
    rw [h harity, List.append_nil]
  cases method with
  | contains => exact hmatching _ (List.append_nil _)
  | startsWith => exact hmatching _ (List.append_nil _)
  | endsWith => exact hmatching _ (List.append_nil _)
  | equals ignoreCase =>
    cases ignoreCase with
    | false => exact names_binary _ _ rfl
    | true =>
      rw [Method.lexemes, names_binary _ _ rfl, hone, hone]
  | toUpper => exact (hone _ _).trans (hnone rfl)
  | toLower => exact (hone _ _).trans (hnone rfl)
  | hasValue =>
    rw [Method.lexemes, names_append, names_nullTest, h rfl]
  | value => exact hnone rfl

theorem paramNames_of_isNull {e : Expr} (h : e.isNull = true) : e.paramNames = [] := by
  cases e with
  | literal value => rfl
  | _ => exact absurd h (by simp [Expr.isNull])

theorem names_operands {m : RowModel} {es : List Expr} {parts : List (List Lexeme)}
    (ih : ∀ e ∈ es, ∀ {ls}, e.lexemes m = .ok ls → names ls = e.paramNames)
    (h : List.Forall₂ (fun e ls => e.lexemes m = .ok ls) es parts) :
    parts.flatMap names = Expr.paramNamesOfList es := by
  induction h with
  | nil => rfl
  | cons first _ ihrest =>
    rw [List.flatMap_cons, Expr.paramNamesOfList, ih _ (by simp) first,
      ihrest fun e he => ih e (by simp [he])]

/-- A condition has the placeholders that its expression names, in the same order. -/
theorem names_lexemes {m : RowModel} {declared : List String} {e : Expr} (he : e.Sound declared)
    {ls : List Lexeme} (h : e.lexemes m = .ok ls) : names ls = e.paramNames := by
  induction he generalizing ls with
  | field property =>
    obtain ⟨rfl, -⟩ := lexemes_field_ok h
    rfl
  | param _ =>
    obtain rfl := Except.ok.inj h
    rfl
  | literal _ => exact names_literal h
  | now clock =>
    cases clock <;> obtain rfl := Except.ok.inj h <;> rfl
  | compare _ _ ihleft ihright =>
    rename_i op left right _ _
    obtain ⟨inner, rfl, hinner⟩ := lexemes_compare_ok h
    rw [names_parenthesized, Expr.paramNames]
    split_ifs at hinner with hswap
    · -- a null literal that changes places names nothing
      obtain ⟨xs, hxs, hcomparison⟩ := hinner
      rw [Bool.and_eq_true] at hswap
      have hleft : left.paramNames = [] := paramNames_of_isNull hswap.1
      rw [names_comparison hcomparison (fun _ => hleft) ihleft, hleft, ihright hxs,
        List.append_nil, List.nil_append]
    · obtain ⟨xs, hxs, hcomparison⟩ := hinner
      rw [names_comparison hcomparison paramNames_of_isNull ihright, ihleft hxs]
  | logical _ _ ih =>
    rename_i op operands _ _
    rw [Expr.lexemes] at h
    obtain ⟨parts, hparts, h₁⟩ := bind_eq_ok.mp h
    obtain rfl := pure_eq_ok.mp h₁
    have hseparator : names [space, word op.keyword, space] = [] := rfl
    rw [names_parenthesized, names_joined hseparator, Expr.paramNames]
    exact names_operands ih (lexemesOfList_ok hparts)
  | not _ ih =>
    rw [Expr.lexemes] at h
    obtain ⟨inner, hinner, h₁⟩ := bind_eq_ok.mp h
    obtain rfl := pure_eq_ok.mp h₁
    rw [names_cons_none rfl, names_cons_none rfl]
    exact ih hinner
  | call arity _ _ ih iharguments =>
    rename_i method _ _ _ _
    rw [Expr.paramNames]
    obtain ⟨subject, hsubject, ⟨rfl, rfl⟩ | ⟨first, rest, argument, rfl, hargument, rfl⟩⟩ :=
      lexemes_call_ok h
    · rw [names_method _ (fun _ => names_nil), ih hsubject]
      rfl
    · obtain rfl := Method.rest_eq_nil arity
      have hnone : method.arity = 0 → names argument = [] := fun h =>
        absurd (arity.trans h) (by simp)
      rw [names_method _ hnone, ih hsubject, iharguments first (by simp) hargument]
      exact congrArg (_ ++ ·) (List.append_nil _).symm

/-! ### Parameters of filters -/

/-- The parameters of a filter stand behind those that are there, each new name once. -/
theorem addFilterParams_ok {earlier all : List Parameter} {params : List FilterParam}
    (h : addFilterParams earlier params = .ok all) :
    ∃ added, all = earlier ++ added ∧ (added.map Parameter.name).Nodup ∧
      ∀ name, name ∈ added.map Parameter.name ↔
        name ∈ params.map FilterParam.name ∧ name ∉ earlier.map Parameter.name := by
  induction params generalizing earlier with
  | nil =>
    obtain rfl := Except.ok.inj h
    exact ⟨[], (List.append_nil _).symm, List.nodup_nil, by simp⟩
  | cons p rest ih =>
    rw [addFilterParams] at h
    split_ifs at h with hknown
    · -- the name is there already
      have hp : p.name ∈ earlier.map Parameter.name := by simpa using hknown
      obtain ⟨added, rfl, hnodup, hmem⟩ := ih h
      refine ⟨added, rfl, hnodup, fun name => (hmem name).trans ?_⟩
      rw [List.map_cons, List.mem_cons]
      refine ⟨fun ⟨hrest, hnew⟩ => ⟨.inr hrest, hnew⟩, ?_⟩
      rintro ⟨rfl | hrest, hnew⟩
      · exact absurd hp hnew
      · exact ⟨hrest, hnew⟩
    · obtain ⟨q, hq, h₁⟩ := bind_eq_ok.mp h
      have hname : q.name = p.name := ofHost_ok hq
      have hp : p.name ∉ earlier.map Parameter.name := by simpa using hknown
      obtain ⟨added, rfl, hnodup, hmem⟩ := ih h₁
      simp only [List.map_append, List.map_cons, List.map_nil, List.mem_append, List.mem_cons,
        List.not_mem_nil, or_false, not_or, hname] at hmem
      refine ⟨q :: added, by simp, ?_, fun name => ?_⟩
      · rw [List.map_cons, hname, List.nodup_cons]
        exact ⟨fun hadded => ((hmem _).mp hadded).2.2 rfl, hnodup⟩
      · rw [List.map_cons, List.map_cons, List.mem_cons, List.mem_cons, hmem, hname]
        constructor
        · rintro (rfl | ⟨hrest, hearlier, -⟩)
          · exact ⟨.inl rfl, hp⟩
          · exact ⟨.inr hrest, hearlier⟩
        · rintro ⟨rfl | hrest, hearlier⟩
          · exact .inl rfl
          · by_cases heq : name = p.name
            · exact .inl heq
            · exact .inr ⟨hrest, hearlier, heq⟩

/-- The condition of an accepted filter names the filter's parameters. -/
theorem mem_names_condition {f : Filter} (hf : f.Accepted) {m : RowModel} {condition : List Lexeme}
    (h : f.condition m = .ok condition) {name : String} :
    name ∈ names condition ↔ name ∈ f.params.map FilterParam.name := by
  rw [names_lexemes hf.sound h]
  exact hf.mem_paramNames

/-- The parameters of a condition are those that it names, each once, and none of the reserved
ones. -/
theorem filterParts_agree {filter : Option Filter} (hf : ∀ f ∈ filter, f.Accepted) {m : RowModel}
    {conditions : List (List Lexeme)} {parameters : List Parameter}
    (h : filterParts m filter = .ok (conditions, parameters)) :
    (∀ name, name ∈ conditions.flatMap names ↔ name ∈ parameters.map Parameter.name) ∧
      (parameters.map Parameter.name).Nodup ∧
      ∀ name ∈ parameters.map Parameter.name, isReservedParameter name = false := by
  obtain ⟨-, rfl, rfl⟩ | ⟨f, condition, rfl, hcondition, rfl, hadded⟩ := filterParts_ok h
  · simp
  · have haccepted := hf f rfl
    obtain ⟨added, rfl, hnodup, hmem⟩ := addFilterParams_ok hadded
    simp only [List.map_nil, List.not_mem_nil, not_false_eq_true, and_true] at hmem
    refine ⟨fun name => ?_, hnodup, fun name hname => ?_⟩
    · rw [List.flatMap_singleton, mem_names_condition haccepted hcondition, hmem]
    · exact haccepted.notReserved name ((hmem name).mp hname)

/-! ### Parameters of columns -/

/-- The written values name the parameters of the columns that are not stamped, in order. -/
theorem assignments_agree {fields : List Field} {written : List Assignment}
    {parameters : List Parameter} (h : assignments fields = .ok (written, parameters)) :
    (written.flatMap fun a => names a.value.lexemes) = parameters.map Parameter.name ∧
      parameters.map Parameter.name = (fields.filter fun f => !f.isStamped).map Field.property ∧
      (∀ f ∈ fields, f.isStamped = false → ∃ p ∈ parameters, f.parameter = .ok p) := by
  obtain ⟨parts, hparts, rfl, rfl⟩ := assignments_ok h
  clear h
  induction hparts with
  | nil => simp
  | cons first _ ih =>
    rename_i f part fields parts _
    obtain ⟨a, parameter⟩ := part
    obtain ⟨hvalues, hnames, hparameters⟩ := ih
    obtain ⟨-, ⟨hstamped, hvalue, rfl⟩ | ⟨hstamped, hvalue, p, hparameter, rfl⟩⟩ :=
      assignment_ok first
    · refine ⟨?_, ?_, fun f' hf' hbound => ?_⟩
      · rw [List.map_cons, List.flatMap_cons, hvalues, hvalue]
        rfl
      · simpa [hstamped] using hnames
      · rcases List.mem_cons.mp hf' with rfl | hf'
        · exact absurd (hstamped.symm.trans hbound) (by simp)
        · simpa using hparameters f' hf' hbound
    · have hname : p.name = f.property := (parameter_ok hparameter).2.2
      refine ⟨?_, ?_, fun f' hf' hbound => ?_⟩
      · have hfirst : ((a, some p) :: parts).filterMap Prod.snd = p :: parts.filterMap Prod.snd := rfl
        rw [List.map_cons, List.flatMap_cons, hvalues, hvalue, hfirst, List.map_cons, hname]
        rfl
      · simpa [hstamped, hname] using hnames
      · rcases List.mem_cons.mp hf' with rfl | hf'
        · exact ⟨p, by simp, hparameter⟩
        · obtain ⟨p', hp', hparameter'⟩ := hparameters f' hf' hbound
          exact ⟨p', by simpa using .inr (by simpa using hp'), hparameter'⟩

/-! ### Legible statements -/

section Legible

variable {c : Compiler} {m : RowModel} {table : List Lexeme} {conditions : List (List Lexeme)}
  {parameters : List Parameter} {filter : Option Filter}

theorem legible_condition {f : Filter} (hf : f.Accepted) {condition : List Lexeme}
    (h : f.condition m = .ok condition) : Legible condition :=
  ⟨contained_condition hf h, spaced_lexemes _ h⟩

theorem legible_filterParts (hf : ∀ f ∈ filter, f.Accepted)
    (h : filterParts m filter = .ok (conditions, parameters)) : ∀ ls ∈ conditions, Legible ls := by
  obtain ⟨-, rfl, -⟩ | ⟨f, condition, rfl, hcondition, rfl, -⟩ := filterParts_ok h
  · simp
  · simpa using legible_condition (hf f rfl) hcondition

theorem legible_table (h : c.tableLexemes m = .ok table) : Legible table := by
  refine ⟨contained_table h, ?_⟩
  rw [(tableLexemes_ok h).2]
  exact .evident rfl

variable {items : List SelectItem}

theorem legible_selectTop (hhead : c.selectHead m = .ok (items, table))
    (hconditions : ∀ ls ∈ conditions, Legible ls) {order : Option OrderBy} {rowOrder : RowOrder}
    (horder : Compiler.rowOrder m order = .ok rowOrder) :
    Legible (Select.body ⟨items, table, conditions, rowOrder⟩) := by
  obtain ⟨hitems, htable⟩ := contained_selectHead hhead
  obtain ⟨-, -, hchecked⟩ := selectHead_ok hhead
  exact ⟨contained_select hitems htable (fun ls hls => (hconditions ls hls).contained)
    (contained_rowOrder horder),
    spaced_select (legible_table hchecked).spaced fun ls hls => (hconditions ls hls).spaced⟩

theorem legible_selectPage (hhead : c.selectHead m = .ok (items, table))
    (hconditions : ∀ ls ∈ conditions, Legible ls) {key : String}
    (hkey : NameKind.column.admits key = true) :
    Legible (Select.body ⟨items, table, conditions ++ [pageCondition key], .byPage key⟩) := by
  obtain ⟨hitems, htable⟩ := contained_selectHead hhead
  obtain ⟨-, -, hchecked⟩ := selectHead_ok hhead
  have hall : ∀ ls ∈ conditions ++ [pageCondition key], Spaced ls := by
    intro ls hls
    rcases List.mem_append.mp hls with hls | hls
    · exact (hconditions ls hls).spaced
    · obtain rfl := List.mem_singleton.mp hls
      exact spaced_pageCondition key
  exact ⟨contained_page hitems htable (fun ls hls => (hconditions ls hls).contained) hkey,
    spaced_select (legible_table hchecked).spaced hall⟩

theorem legible_count (htable : Legible table) (hconditions : ∀ ls ∈ conditions, Legible ls) :
    Legible (countBody table conditions) :=
  ⟨contained_count htable.contained fun ls hls => (hconditions ls hls).contained,
    spaced_count htable.spaced fun ls hls => (hconditions ls hls).spaced⟩

theorem legible_insert (htable : Legible table) {fields : List Field} {written : List Assignment}
    (h : assignments fields = .ok (written, parameters)) : Legible (insertBody table written) :=
  ⟨contained_insert htable.contained (contained_assignments h), spaced_insert htable.spaced⟩

theorem legible_update (htable : Legible table) {fields : List Field} {written : List Assignment}
    (h : assignments fields = .ok (written, parameters)) {condition : List Lexeme}
    (hcondition : Legible condition) : Legible (updateBody table written condition) :=
  ⟨contained_update htable.contained (contained_assignments h) hcondition.contained,
    spaced_update htable.spaced hcondition.spaced⟩

theorem legible_delete (htable : Legible table) {condition : List Lexeme}
    (hcondition : Legible condition) : Legible (deleteBody table condition) :=
  ⟨contained_delete htable.contained hcondition.contained,
    spaced_delete htable.spaced hcondition.spaced⟩

end Legible

/-! ### Placeholders of statements -/

theorem names_where (conditions : List (List Lexeme)) :
    names (whereLexemes conditions) = conditions.flatMap names := by
  rw [whereLexemes]
  split_ifs with hempty
  · rw [List.isEmpty_iff.mp hempty]
    rfl
  · rw [names_append, names_joined rfl]
    rfl

theorem names_commaLines (parts : List (List Lexeme)) :
    names (Lexeme.commaLines parts) = parts.flatMap names :=
  names_joined rfl parts

theorem names_selectItem (item : SelectItem) : names item.lexemes = [] := by
  rw [SelectItem.lexemes.eq_def]
  split <;> rfl

theorem names_table {c : Compiler} {m : RowModel} {table : List Lexeme}
    (h : c.tableLexemes m = .ok table) : names table = [] := by
  rw [(tableLexemes_ok h).2]
  rfl

theorem names_select {s : Select} (table : names s.table = []) :
    names s.body = s.conditions.flatMap names ++ names s.order.lexemes ++ [countName] := by
  have hitems : (s.items.map SelectItem.lexemes).flatMap names = [] := by
    simp [List.flatMap_map, names_selectItem]
  simp only [Select.body, names_append, names_commaLines, names_where, hitems, table]
  rfl

theorem names_count {table : List Lexeme} (htable : names table = [])
    (conditions : List (List Lexeme)) :
    names (countBody table conditions) = conditions.flatMap names := by
  simp only [countBody, names_append, htable, names_where]
  rfl

theorem names_insert {table : List Lexeme} (htable : names table = [])
    (written : List Assignment) :
    names (insertBody table written) = written.flatMap fun a => names a.value.lexemes := by
  have hnames : (written.map fun a => [Lexeme.name a.column]).flatMap names = [] := by
    rw [List.flatMap_map]
    exact List.flatMap_eq_nil_iff.mpr fun a _ => rfl
  simp only [insertBody, names_append, names_commaLines, htable, hnames]
  rw [List.flatMap_map]
  exact List.append_nil _

theorem names_update {table : List Lexeme} (htable : names table = [])
    (written : List Assignment) (condition : List Lexeme) :
    names (updateBody table written condition) =
      (written.flatMap fun a => names a.value.lexemes) ++ names condition := by
  have hset : ∀ a : Assignment,
      names (binary [.name a.column] (mark "=") a.value.lexemes) = names a.value.lexemes :=
    fun a => names_binary _ _ rfl
  simp only [updateBody, names_append, names_commaLines, names_where, htable, List.flatMap_map, hset,
    List.flatMap_singleton]
  rfl

theorem names_delete {table : List Lexeme} (htable : names table = []) (condition : List Lexeme) :
    names (deleteBody table condition) = names condition := by
  simp only [deleteBody, names_append, names_where, htable, List.flatMap_singleton]
  rfl

/-! ### Agreement -/

/-- A statement that reads or writes the rows of a model. -/
inductive Statement.OnRows (m : RowModel) : Statement → Prop
  | selectTop {c : Compiler} {filter : Option Filter} {order : Option OrderBy} {s : Statement}
      (accepted : ∀ f ∈ filter, f.Accepted) (made : c.selectTop m filter order = .ok s) : OnRows m s
  | selectPage {c : Compiler} {order : OrderBy} {filter : Option Filter} {s : Statement}
      (accepted : ∀ f ∈ filter, f.Accepted) (made : c.selectPage m order filter = .ok s) :
      OnRows m s
  | count {c : Compiler} {filter : Option Filter} {s : Statement}
      (accepted : ∀ f ∈ filter, f.Accepted) (made : c.count m filter = .ok s) : OnRows m s
  | insert {c : Compiler} {s : Statement} (made : c.insert m = .ok s) : OnRows m s
  | update {c : Compiler} {filter : Filter} {s : Statement} (accepted : filter.Accepted)
      (made : c.update m filter = .ok s) : OnRows m s
  | delete {c : Compiler} {filter : Filter} {s : Statement} (accepted : filter.Accepted)
      (made : c.delete m filter = .ok s) : OnRows m s

namespace Statement

variable {c : Compiler} {m : RowModel} {s : Statement}

theorem placeholders_ofBody {body : List Lexeme} (h : Legible body)
    (parameters : List Parameter) : (ofBody body parameters).placeholders = names body :=
  placeholders_text h

/-- The text names the parameters of the statement, and no others. -/
def Agrees (s : Statement) : Prop :=
  ∀ name, name ∈ s.placeholders ↔ name ∈ s.parameters.map Parameter.name

/-- No two parameters have a name in common. -/
def Distinct (s : Statement) : Prop :=
  (s.parameters.map Parameter.name).Nodup

/-- Reserved names are none of those in front of them. -/
theorem nodup_append_reserved {parameters more : List Parameter} {names : List String}
    (hnodup : (parameters.map Parameter.name).Nodup)
    (hfree : ∀ name ∈ parameters.map Parameter.name, isReservedParameter name = false)
    (hnames : more.map Parameter.name = names) (hmore : names.Nodup)
    (hreserved : names.all isReservedParameter = true) :
    ((parameters ++ more).map Parameter.name).Nodup := by
  rw [List.map_append, hnames]
  refine List.nodup_append.mpr ⟨hnodup, hmore, ?_⟩
  rintro name hname _ hmem rfl
  exact absurd ((hfree name hname).symm.trans (List.all_eq_true.mp hreserved name hmem)) (by simp)

theorem agrees_selectTop {filter : Option Filter} (hf : ∀ f ∈ filter, f.Accepted)
    {order : Option OrderBy} (h : c.selectTop m filter order = .ok s) : s.Agrees ∧ s.Distinct := by
  obtain ⟨items, table, conditions, parameters, rowOrder, count, hhead, hparts, horder, hcount,
    rfl⟩ := Compiler.selectTop_ok h
  obtain ⟨hagree, hnodup, hfree⟩ := filterParts_agree hf hparts
  have hlegible := legible_selectTop hhead (legible_filterParts hf hparts) horder
  have hnone : names rowOrder.lexemes = [] := by
    obtain ⟨-, rfl⟩ | ⟨o, f, column, -, -, -, rfl⟩ := Compiler.rowOrder_ok horder <;> rfl
  have hcounted : [count].map Parameter.name = [countName] := by
    rw [List.map_singleton, ofHost_ok hcount]
  refine ⟨fun name => ?_, nodup_append_reserved hnodup hfree hcounted (by simp) (by decide)⟩
  rw [placeholders_ofBody hlegible, names_select (names_table (selectHead_ok hhead).2.2), hnone,
    List.append_nil, List.mem_append, hagree, ofBody, ofLexemes, List.map_append, hcounted,
    List.mem_append]

theorem agrees_selectPage {filter : Option Filter} (hf : ∀ f ∈ filter, f.Accepted)
    {order : OrderBy} (h : c.selectPage m order filter = .ok s) : s.Agrees ∧ s.Distinct := by
  obtain ⟨keyField, key, items, table, conditions, parameters, ascending, start, count, -, hkey,
    hhead, hparts, hascending, hstart, hcount, rfl⟩ := Compiler.selectPage_ok h
  obtain ⟨hagree, hnodup, hfree⟩ := filterParts_agree hf hparts
  have hlegible := legible_selectPage hhead (legible_filterParts hf hparts) (checkedColumn_ok hkey).2
  have hpaging : [ascending, start, count].map Parameter.name =
      [ascendingName, startName, countName] := by
    simp [ofHost_ok hascending, ofHost_ok hstart, ofHost_ok hcount]
  refine ⟨fun name => ?_, nodup_append_reserved hnodup hfree hpaging (by decide) (by decide)⟩
  -- the condition and the order of a page name its start and its direction several times
  have hplaceholders :
      names (Select.body ⟨items, table, conditions ++ [pageCondition key], .byPage key⟩) =
        conditions.flatMap names ++ [startName, ascendingName, startName, ascendingName, startName,
          ascendingName, ascendingName, countName] := by
    refine (names_select (names_table (selectHead_ok hhead).2.2)).trans ?_
    rw [List.flatMap_append, List.append_assoc, List.append_assoc]
    rfl
  have hsame : ∀ a b c : String, name ∈ [a, b, a, b, a, b, b, c] ↔ name ∈ [b, a, c] := by
    intro a b c
    grind
  rw [placeholders_ofBody hlegible, hplaceholders, List.mem_append, hagree, hsame, ofBody,
    ofLexemes, List.map_append, hpaging, List.mem_append]

theorem agrees_count {filter : Option Filter} (hf : ∀ f ∈ filter, f.Accepted)
    (h : c.count m filter = .ok s) : s.Agrees ∧ s.Distinct := by
  obtain ⟨table, conditions, parameters, htable, hparts, rfl⟩ := Compiler.count_ok h
  obtain ⟨hagree, hnodup, -⟩ := filterParts_agree hf hparts
  have hlegible := legible_count (legible_table htable) (legible_filterParts hf hparts)
  refine ⟨fun name => ?_, hnodup⟩
  rw [placeholders_ofBody hlegible, names_count (names_table htable), hagree]
  rfl

/-- The parameters of written columns are distinct if the properties of the model are. -/
theorem nodup_assignments {fields : List Field} (hfields : fields.Sublist m.fields)
    {written : List Assignment} {parameters : List Parameter}
    (h : assignments fields = .ok (written, parameters))
    (hm : (m.fields.map Field.property).Nodup) : (parameters.map Parameter.name).Nodup := by
  rw [(assignments_agree h).2.1]
  exact hm.sublist ((List.filter_sublist.trans hfields).map _)

theorem agrees_insert (h : c.insert m = .ok s) :
    s.Agrees ∧ ((m.fields.map Field.property).Nodup → s.Distinct) := by
  obtain ⟨table, written, parameters, htable, hwritten, rfl⟩ := Compiler.insert_ok h
  have hlegible := legible_insert (legible_table htable) hwritten
  refine ⟨fun name => ?_, nodup_assignments List.filter_sublist hwritten⟩
  rw [placeholders_ofBody hlegible, names_insert (names_table htable),
    (assignments_agree hwritten).1]
  rfl

theorem agrees_delete {filter : Filter} (hf : filter.Accepted) (h : c.delete m filter = .ok s) :
    s.Agrees ∧ s.Distinct := by
  obtain ⟨table, condition, parameters, htable, hcondition, hadded, rfl⟩ := Compiler.delete_ok h
  have hlegible := legible_delete (legible_table htable) (legible_condition hf hcondition)
  obtain ⟨added, rfl, hnodup, hmem⟩ := addFilterParams_ok hadded
  refine ⟨fun name => ?_, hnodup⟩
  rw [placeholders_ofBody hlegible, names_delete (names_table htable),
    mem_names_condition hf hcondition]
  exact ((hmem name).trans (and_iff_left (by simp))).symm

theorem agrees_update {filter : Filter} (hf : filter.Accepted) (h : c.update m filter = .ok s) :
    s.Agrees ∧ ((m.fields.map Field.property).Nodup → s.Distinct) := by
  obtain ⟨table, written, own, condition, parameters, htable, hwritten, hcondition, hadded, rfl⟩ :=
    Compiler.update_ok h
  have hlegible := legible_update (legible_table htable) hwritten (legible_condition hf hcondition)
  obtain ⟨added, rfl, hnodup, hmem⟩ := addFilterParams_ok hadded
  refine ⟨fun name => ?_, fun hm => ?_⟩
  · rw [placeholders_ofBody hlegible, names_update (names_table htable), List.mem_append,
      (assignments_agree hwritten).1, mem_names_condition hf hcondition, ofBody, ofLexemes,
      List.map_append, List.mem_append, hmem]
    tauto
  · have hown := nodup_assignments List.filter_sublist hwritten hm
    rw [Distinct, ofBody, ofLexemes, List.map_append]
    refine List.nodup_append.mpr ⟨hown, hnodup, ?_⟩
    rintro name hname _ hadd rfl
    exact ((hmem name).mp hadd).2 hname

theorem parameter?_of_mem (h : s.Distinct) {p : Parameter} (hp : p ∈ s.parameters) :
    s.parameter? p.name = some p := by
  rw [parameter?]
  cases hfound : s.parameters.find? (fun q => q.name == p.name) with
  | none => exact absurd (List.find?_eq_none.mp hfound p hp) (by simp)
  | some q =>
    have hname : q.name = p.name := by simpa using List.find?_some hfound
    rw [List.inj_on_of_nodup_map h (List.mem_of_find?_eq_some hfound) hp hname]

/-- A column that an update writes has its own parameter, also where the filter has one of the same
name. -/
theorem parameter?_update {filter : Filter} (h : c.update m filter = .ok s) (hs : s.Distinct)
    {f : Field} (hf : f ∈ m.updatedFields) (hbound : f.isStamped = false) :
    ∃ p, f.parameter = .ok p ∧ s.parameter? f.property = some p := by
  obtain ⟨table, written, own, condition, parameters, -, hwritten, -, hadded, rfl⟩ :=
    Compiler.update_ok h
  obtain ⟨p, hp, hparameter⟩ := (assignments_agree hwritten).2.2 f hf hbound
  obtain ⟨added, rfl, -, -⟩ := addFilterParams_ok hadded
  refine ⟨p, hparameter, ?_⟩
  rw [← (parameter_ok hparameter).2.2]
  exact parameter?_of_mem hs (List.mem_append_left added hp)

/-- A statement on rows names its parameters in its text, and no others, and if the properties of
the model are distinct, so are the parameters. -/
theorem OnRows.agrees (h : s.OnRows m) :
    s.Agrees ∧ ((m.fields.map Field.property).Nodup → s.Distinct) := by
  cases h with
  | selectTop accepted made => exact (agrees_selectTop accepted made).imp_right fun h _ => h
  | selectPage accepted made => exact (agrees_selectPage accepted made).imp_right fun h _ => h
  | count accepted made => exact (agrees_count accepted made).imp_right fun h _ => h
  | insert made => exact agrees_insert made
  | update accepted made => exact agrees_update accepted made
  | delete accepted made => exact (agrees_delete accepted made).imp_right fun h _ => h

/-- A statement on rows names its parameters in its text, and no others. If the properties of the
model are distinct, so are the parameters, and each column that an update writes has its own one. -/
theorem OnRows.parameters_agree (h : s.OnRows m) :
    (∀ name, name ∈ s.placeholders ↔ name ∈ s.parameters.map Parameter.name) ∧
      ((m.fields.map Field.property).Nodup →
        (s.parameters.map Parameter.name).Nodup ∧
          ∀ c filter, Compiler.update c m filter = .ok s → ∀ f ∈ m.updatedFields,
            f.isStamped = false → ∃ p, f.parameter = .ok p ∧ s.parameter? f.property = some p) :=
  ⟨h.agrees.1, fun hm => ⟨h.agrees.2 hm, fun _ _ hupdate _ hf hbound =>
    parameter?_update hupdate (h.agrees.2 hm) hf hbound⟩⟩

/-- A filter on an update may use the value that is written: it is one parameter, with the type of
the column. -/
theorem update_shared :
    ∃ s, Compiler.update ⟨"shop", by decide⟩
        ⟨"Stock", "stock", [{ property := "LeftOver", host := ⟨.i32, false⟩ }]⟩
        ⟨.compare .lt (.field "LeftOver") (.param "LeftOver"), [⟨"LeftOver", ⟨.u8, false⟩⟩]⟩ = .ok s ∧
      s.text = "UPDATE `shop`.`stock` SET\n\t`LEFT_OVER` = @LeftOver\n" ++
        "WHERE (`LEFT_OVER` < @LeftOver);" ∧
      "LeftOver" ∈ s.placeholders ∧
      ∃ p, Field.parameter { property := "LeftOver", host := ⟨.i32, false⟩ } = .ok p ∧
        s.parameter? "LeftOver" = some p := by
  have hparse : Filter.parse "row => row.LeftOver < LeftOver" [⟨"LeftOver", ⟨.u8, false⟩⟩] =
      .ok ⟨.compare .lt (.field "LeftOver") (.param "LeftOver"), [⟨"LeftOver", ⟨.u8, false⟩⟩]⟩ := rfl
  have hmade : Compiler.update ⟨"shop", by decide⟩
      ⟨"Stock", "stock", [{ property := "LeftOver", host := ⟨.i32, false⟩ }]⟩
      ⟨.compare .lt (.field "LeftOver") (.param "LeftOver"), [⟨"LeftOver", ⟨.u8, false⟩⟩]⟩ =
        .ok ⟨"UPDATE `shop`.`stock` SET\n\t`LEFT_OVER` = @LeftOver\n" ++
          "WHERE (`LEFT_OVER` < @LeftOver);", [⟨"LeftOver", "int", none, .input⟩]⟩ := by
    decide +kernel
  obtain ⟨hnames, hdistinct⟩ := (OnRows.update (.parse hparse) hmade).parameters_agree
  exact ⟨_, hmade, rfl, (hnames "LeftOver").mpr (by decide),
    (hdistinct (by decide)).2 _ _ hmade _ (by decide) (by decide)⟩

end Statement

end TypedSql
