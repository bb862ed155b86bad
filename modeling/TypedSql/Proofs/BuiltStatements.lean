/-
Statements that are built from models, filters and names.

Whatever the names and properties are, a statement that is built at all is put together from
contained lexemes, so its text is confined: a name that could break out of its backticks makes the
builder refuse.

* `contained_condition` — a filter's condition is made of contained lexemes;
* `Statement.Built.confined` — every built statement has a confined text.
-/
import TypedSql.Proofs.Builders
import TypedSql.Proofs.Confined
import TypedSql.Proofs.ConditionPhrase

namespace TypedSql

open Lexeme (word mark blank space words placeholder qualified)

/-- Lexemes all of which are contained. -/
def AllContained (ls : List Lexeme) : Prop :=
  ∀ l ∈ ls, l.Contained

/-- Whether the text of a lexeme shows that it is contained. -/
def Lexeme.isEvident : Lexeme → Bool
  | blank text => blanks.contains text
  | word text => vocabulary.contains text
  | mark text => marks.contains text
  | placeholder parameter => isParameterName parameter
  | anyText => true
  | _ => false

namespace AllContained

variable {xs ys : List Lexeme}

theorem nil : AllContained [] :=
  fun _ h => absurd h (by simp)

theorem cons {l : Lexeme} (h : l.Contained) (hs : AllContained xs) : AllContained (l :: xs) :=
  List.forall_mem_cons.mpr ⟨h, hs⟩

theorem append (h : AllContained xs) (h' : AllContained ys) : AllContained (xs ++ ys) :=
  List.forall_mem_append.mpr ⟨h, h'⟩

theorem evident (h : xs.all Lexeme.isEvident = true) : AllContained xs := by
  intro l hl
  have hevident := List.all_eq_true.mp h l hl
  cases l with
  | blank text => exact .blank (by simpa [Lexeme.isEvident] using hevident)
  | word text => exact .word (by simpa [Lexeme.isEvident] using hevident)
  | mark text => exact .mark (by simpa [Lexeme.isEvident] using hevident)
  | placeholder parameter => exact .placeholder hevident
  | anyText => exact .anyText
  | _ => exact absurd hevident (by simp [Lexeme.isEvident])

theorem joined {separator : List Lexeme} {parts : List (List Lexeme)}
    (hseparator : AllContained separator) (h : ∀ ls ∈ parts, AllContained ls) :
    AllContained (Lexeme.joined separator parts) :=
  Lexeme.joined_induction nil (fun hx hy => (hx.append hseparator).append hy) h

theorem commaSeparated {parts : List (List Lexeme)} (h : ∀ ls ∈ parts, AllContained ls) :
    AllContained (Lexeme.commaSeparated parts) :=
  joined (evident rfl) h

theorem commaLines {parts : List (List Lexeme)} (h : ∀ ls ∈ parts, AllContained ls) :
    AllContained (Lexeme.commaLines parts) :=
  joined (evident rfl) h

theorem name {kind : NameKind} (notVariable : kind ≠ .var) {text : String}
    (h : kind.admits text = true) : AllContained [.name text] :=
  cons (.name notVariable h) nil

theorem column {text : String} (h : NameKind.column.admits text = true) :
    AllContained [.name text] :=
  name (by decide) h

theorem parameter {name : String} (h : isParameterName name = true) :
    AllContained [Lexeme.placeholder name] :=
  cons (.placeholder h) nil

theorem sqlCall {function : String} (hfunction : function ∈ vocabulary)
    {parts : List (List Lexeme)} (h : ∀ ls ∈ parts, AllContained ls) :
    AllContained (TypedSql.sqlCall function parts) :=
  cons (.word hfunction) (cons (.mark (by decide))
    ((commaSeparated h).append (evident rfl)))

theorem binary {operator : Lexeme} (hx : AllContained xs) (hoperator : operator.Contained)
    (hy : AllContained ys) : AllContained (TypedSql.binary xs operator ys) :=
  (hx.append (cons (.blank (by decide))
    (cons hoperator (cons (.blank (by decide)) nil)))).append hy

theorem parenthesized (h : AllContained xs) : AllContained (mark "(" :: (xs ++ [mark ")"])) :=
  cons (.mark (by decide)) (h.append (evident rfl))

end AllContained

/-! ### Conditions -/

theorem contained_operator (op : Comparison) : (mark op.operator).Contained :=
  .mark (by cases op <;> decide)

theorem contained_nullTest (negated : Bool) : AllContained (nullTest negated) := by
  cases negated with
  | false => exact .evident rfl
  | true => exact .evident rfl

theorem contained_literal {value : Literal} {ls : List Lexeme} (h : value.lexemes = .ok ls) :
    AllContained ls := by
  cases value with
  | null =>
    obtain rfl := Except.ok.inj h
    exact .evident rfl
  | bool value =>
    obtain rfl := Except.ok.inj h
    cases value with
    | false => exact .evident rfl
    | true => exact .evident rfl
  | integer value =>
    obtain rfl := Except.ok.inj h
    exact .cons (.integer value) .nil
  | number value =>
    rw [Literal.lexemes] at h
    split_ifs at h with hfinite
    obtain rfl := Except.ok.inj h
    exact .cons (.number hfinite) .nil
  | text value => exact absurd h (by simp [Literal.lexemes])

theorem contained_comparison {op : Comparison} {xs inner : List Lexeme}
    {ys : Except CompileError (List Lexeme)} {rightNull : Bool}
    (h : ComparisonLexemes op xs ys rightNull inner) (first : AllContained xs)
    (second : ∀ {ls}, ys = .ok ls → AllContained ls) : AllContained inner := by
  cases h with
  | nullTest negated _ _ => exact first.append (contained_nullTest negated)
  | binary _ hys => exact first.binary (contained_operator op) (second hys)

theorem contained_method (method : Method) {receiver argument : List Lexeme}
    (hreceiver : AllContained receiver) (hargument : AllContained argument) :
    AllContained (method.lexemes receiver argument) := by
  have hone : ∀ {function : String} {ls : List Lexeme}, function ∈ vocabulary → AllContained ls →
      AllContained (sqlCall function [ls]) :=
    fun hfunction hls => .sqlCall hfunction (by simpa using hls)
  have hmatching : ∀ {pattern : List (List Lexeme)}, (∀ ls ∈ pattern, AllContained ls) →
      AllContained (binary receiver (word "LIKE") (sqlCall "CONCAT" pattern)) :=
    fun hpattern => hreceiver.binary (.word (by decide))
      (.sqlCall (by decide) hpattern)
  have hany : AllContained [.anyText] := .evident rfl
  cases method with
  | contains => exact hmatching (by simp [hany, hargument])
  | startsWith => exact hmatching (by simp [hany, hargument])
  | endsWith => exact hmatching (by simp [hany, hargument])
  | equals ignoreCase =>
    cases ignoreCase with
    | false => exact hreceiver.binary (contained_operator .eq) hargument
    | true =>
      exact (hone (by decide) hreceiver).binary (contained_operator .eq)
        (hone (by decide) hargument)
  | toUpper => exact hone (by decide) hreceiver
  | toLower => exact hone (by decide) hreceiver
  | hasValue => exact hreceiver.append (contained_nullTest true)
  | value => exact hreceiver

theorem contained_lexemes {m : RowModel} {declared : List String}
    (hdeclared : ∀ name ∈ declared, isParameterName name = true) {e : Expr}
    (he : e.Sound declared) {ls : List Lexeme} (h : e.lexemes m = .ok ls) : AllContained ls := by
  induction he generalizing ls with
  | field property =>
    obtain ⟨rfl, hadmits⟩ := lexemes_field_ok h
    exact .column hadmits
  | param known =>
    obtain rfl := Except.ok.inj h
    exact .parameter (hdeclared _ known)
  | literal _ => exact contained_literal h
  | now clock =>
    cases clock with
    | localTime =>
      obtain rfl := Except.ok.inj h
      exact .evident rfl
    | utc =>
      obtain rfl := Except.ok.inj h
      exact .evident rfl
  | compare _ _ ihleft ihright =>
    obtain ⟨inner, rfl, hinner⟩ := lexemes_compare_ok h
    split_ifs at hinner
    · obtain ⟨xs, hxs, hcomparison⟩ := hinner
      exact (contained_comparison hcomparison (ihright hxs) ihleft).parenthesized
    · obtain ⟨xs, hxs, hcomparison⟩ := hinner
      exact (contained_comparison hcomparison (ihleft hxs) ihright).parenthesized
  | logical _ _ ih =>
    rename_i op operands _ _
    rw [Expr.lexemes] at h
    obtain ⟨parts, hparts, h₁⟩ := bind_eq_ok.mp h
    obtain rfl := pure_eq_ok.mp h₁
    have heach : ∀ ls ∈ parts, AllContained ls := by
      intro ls hls
      obtain ⟨e, he, hlexemes⟩ := exists_mem_of_forall₂ (lexemesOfList_ok hparts) hls
      exact ih e he hlexemes
    refine AllContained.parenthesized (.joined ?_ heach)
    cases op with
    | and => exact .evident rfl
    | or => exact .evident rfl
  | not _ ih =>
    rw [Expr.lexemes] at h
    obtain ⟨inner, hinner, h₁⟩ := bind_eq_ok.mp h
    obtain rfl := pure_eq_ok.mp h₁
    have hnot : AllContained [word "NOT", space] := .evident rfl
    exact hnot.append (ih hinner)
  | call _ _ _ ih iharguments =>
    obtain ⟨subject, hsubject, ⟨rfl, rfl⟩ | ⟨first, rest, argument, rfl, hargument, rfl⟩⟩ :=
      lexemes_call_ok h
    · exact contained_method _ (ih hsubject) .nil
    · exact contained_method _ (ih hsubject) (iharguments first (by simp) hargument)

theorem contained_condition {f : Filter} (hf : f.Accepted) {m : RowModel} {ls : List Lexeme}
    (h : f.condition m = .ok ls) : AllContained ls :=
  contained_lexemes hf.isParameterName hf.sound h

/-! ### Parts of statements -/

theorem contained_qualified {database table : String}
    (hdatabase : NameKind.database.admits database = true) {kind : NameKind} (hkind : kind ≠ .var)
    (htable : kind.admits table = true) : AllContained (qualified database table) :=
  .cons (.name (by decide) hdatabase) (.cons (.mark (by decide)) (.name hkind htable))

section Parts

variable {c : Compiler} {m : RowModel} {f : Field}

theorem contained_table {table : List Lexeme} (h : c.tableLexemes m = .ok table) :
    AllContained table := by
  obtain ⟨hadmits, rfl⟩ := tableLexemes_ok h
  exact contained_qualified c.valid (by decide) hadmits

theorem contained_column {column : String} (h : f.checkedColumn = .ok column) :
    AllContained [.name column] :=
  .column (checkedColumn_ok h).2

theorem contained_filterParts {filter : Option Filter} (hf : ∀ f ∈ filter, f.Accepted)
    {conditions : List (List Lexeme)} {parameters : List Parameter}
    (h : filterParts m filter = .ok (conditions, parameters)) :
    ∀ ls ∈ conditions, AllContained ls := by
  obtain ⟨-, rfl, -⟩ | ⟨f, condition, rfl, hcondition, rfl, -⟩ := filterParts_ok h
  · simp
  · simpa using contained_condition (hf f rfl) hcondition

theorem contained_where {conditions : List (List Lexeme)}
    (h : ∀ ls ∈ conditions, AllContained ls) : AllContained (whereLexemes conditions) := by
  rw [whereLexemes]
  split_ifs
  · exact .nil
  · exact (AllContained.evident rfl).append (.joined (.evident rfl) h)

/-! ### Statements that read rows -/

theorem contained_selectItem {item : SelectItem} (h : SelectItem.ofField f = .ok item) :
    AllContained item.lexemes := by
  obtain ⟨-, hcolumn, -, hproperty⟩ := selectItem_ok h
  rw [SelectItem.lexemes.eq_def]
  split
  · exact .column hcolumn
  · rename_i property hsome
    have has : AllContained [space, word "AS", space] := .evident rfl
    exact (AllContained.column hcolumn).append (has.append (.column (hproperty property hsome)))

theorem contained_selectHead {items : List SelectItem} {table : List Lexeme}
    (h : c.selectHead m = .ok (items, table)) :
    (∀ i ∈ items, AllContained i.lexemes) ∧ AllContained table := by
  obtain ⟨-, hitems, htable⟩ := selectHead_ok h
  refine ⟨fun i hi => ?_, contained_table htable⟩
  obtain ⟨f, -, hitem⟩ := exists_mem_of_forall₂ hitems hi
  exact contained_selectItem hitem

theorem contained_orderKeyword (order : SortOrder) :
    AllContained [space, word order.keyword] := by
  cases order with
  | ascending => exact .evident rfl
  | descending => exact .evident rfl

theorem contained_pageSortKey {key : String} (hkey : NameKind.column.admits key = true)
    (order : SortOrder) : AllContained (pageSortKey key order) := by
  have hthen : AllContained [space, placeholder ascendingName, space, word "THEN", space] :=
    .evident rfl
  have hend : AllContained [space, word "END"] := .evident rfl
  have hbehind := hthen.append ((AllContained.column hkey).append
    (hend.append (contained_orderKeyword order)))
  cases order with
  | ascending =>
    have hbegin : AllContained (words ["CASE", "WHEN"]) := .evident rfl
    exact hbegin.append hbehind
  | descending =>
    have hbegin : AllContained (words ["CASE", "WHEN", "NOT"]) := .evident rfl
    exact hbegin.append hbehind

theorem contained_rowOrder {order : Option OrderBy} {rowOrder : RowOrder}
    (h : Compiler.rowOrder m order = .ok rowOrder) : AllContained rowOrder.lexemes := by
  obtain ⟨-, rfl⟩ | ⟨o, f, column, -, -, hcolumn, rfl⟩ := Compiler.rowOrder_ok h
  · exact .nil
  · have hbegin : AllContained (blank "\n" :: (words ["ORDER", "BY"] ++ [space])) := .evident rfl
    exact hbegin.append ((contained_column hcolumn).append (contained_orderKeyword o.order))

theorem contained_byPage {key : String} (hkey : NameKind.column.admits key = true) :
    AllContained (RowOrder.byPage key).lexemes := by
  have hbegin : AllContained (blank "\n" :: (words ["ORDER", "BY"] ++ [blank "\n\t"])) :=
    .evident rfl
  have hkeys : AllContained (Lexeme.commaLines
      [pageSortKey key .ascending, pageSortKey key .descending]) :=
    .commaLines (by simp [contained_pageSortKey hkey])
  exact hbegin.append hkeys

/-- The start, the direction and the key of a page, within the words of its condition. -/
theorem contained_pageCondition {key : String} (hkey : NameKind.column.admits key = true) :
    AllContained (pageCondition key) := by
  have hbegin : AllContained ([mark "(", placeholder startName, space] ++ words ["IS", "NULL"] ++
      [blank "\n\t\t", word "OR", space, mark "(", placeholder ascendingName, space, word "AND",
       space]) := .evident rfl
  have hmiddle : AllContained [space, mark ">", space, placeholder startName, mark ")",
      blank "\n\t\t", word "OR", space, mark "(", word "NOT", space, placeholder ascendingName,
      space, word "AND", space] := .evident rfl
  have hend : AllContained [space, mark "<", space, placeholder startName, mark ")", mark ")"] :=
    .evident rfl
  have hname := AllContained.column hkey
  exact hbegin.append (hname.append (hmiddle.append (hname.append hend)))

theorem contained_select {s : Select} (items : ∀ i ∈ s.items, AllContained i.lexemes)
    (table : AllContained s.table) (conditions : ∀ ls ∈ s.conditions, AllContained ls)
    (order : AllContained s.order.lexemes) : AllContained s.body := by
  have hitems : AllContained (Lexeme.commaLines (s.items.map SelectItem.lexemes)) :=
    .commaLines (by simpa using items)
  exact (((((AllContained.evident rfl).append hitems).append (.evident rfl)).append table).append
    (contained_where conditions)).append order |>.append (.evident rfl)

/-- A page's condition stands behind the filter's, and the key's column is in it twice. -/
theorem contained_page {items : List SelectItem} {table : List Lexeme}
    {conditions : List (List Lexeme)} {key : String} (hitems : ∀ i ∈ items, AllContained i.lexemes)
    (htable : AllContained table) (h : ∀ ls ∈ conditions, AllContained ls)
    (hkey : NameKind.column.admits key = true) :
    AllContained
      (Select.body ⟨items, table, conditions ++ [pageCondition key], .byPage key⟩) := by
  refine contained_select hitems htable (fun ls hls => ?_) (contained_byPage hkey)
  rcases List.mem_append.mp hls with hls | hls
  · exact h ls hls
  · obtain rfl := List.mem_singleton.mp hls
    exact contained_pageCondition hkey

/-! ### Statements that write rows -/

theorem contained_assignment {written : Assignment} {parameter : Option Parameter}
    (h : Assignment.ofField f = .ok (written, parameter)) :
    AllContained [.name written.column] ∧ AllContained written.value.lexemes := by
  obtain ⟨hcolumn, ⟨-, hvalue, -⟩ | ⟨-, hvalue, p, hparameter, -⟩⟩ := assignment_ok h
  · exact ⟨contained_column hcolumn, hvalue ▸ .evident rfl⟩
  · exact ⟨contained_column hcolumn, hvalue ▸ .parameter (parameter_ok hparameter).2.1⟩

theorem contained_assignments {fields : List Field} {written : List Assignment}
    {parameters : List Parameter} (h : assignments fields = .ok (written, parameters)) :
    ∀ a ∈ written, AllContained [.name a.column] ∧ AllContained a.value.lexemes := by
  obtain ⟨parts, hparts, rfl, -⟩ := assignments_ok h
  intro a ha
  obtain ⟨part, hpart, rfl⟩ := List.mem_map.mp ha
  obtain ⟨f, -, hfield⟩ := exists_mem_of_forall₂ hparts hpart
  exact contained_assignment hfield

theorem contained_count {table : List Lexeme} {conditions : List (List Lexeme)}
    (htable : AllContained table) (h : ∀ ls ∈ conditions, AllContained ls) :
    AllContained (countBody table conditions) :=
  ((AllContained.evident rfl).append htable).append (contained_where h)

theorem contained_insert {table : List Lexeme} {written : List Assignment}
    (htable : AllContained table)
    (h : ∀ a ∈ written, AllContained [.name a.column] ∧ AllContained a.value.lexemes) :
    AllContained (insertBody table written) := by
  have hnames : AllContained (Lexeme.commaLines (written.map fun a => [.name a.column])) :=
    .commaLines (by simpa using fun a ha => (h a ha).1)
  have hvalues : AllContained (Lexeme.commaLines (written.map fun a => a.value.lexemes)) :=
    .commaLines (by simpa using fun a ha => (h a ha).2)
  exact ((((((AllContained.evident rfl).append htable).append (.evident rfl)).append hnames).append
    (.evident rfl)).append hvalues).append (.evident rfl)

theorem contained_update {table condition : List Lexeme} {written : List Assignment}
    (htable : AllContained table)
    (h : ∀ a ∈ written, AllContained [.name a.column] ∧ AllContained a.value.lexemes)
    (hcondition : AllContained condition) : AllContained (updateBody table written condition) := by
  have hmark : (mark "=").Contained := contained_operator .eq
  have hset : AllContained (Lexeme.commaLines
      (written.map fun a => binary [.name a.column] (mark "=") a.value.lexemes)) :=
    .commaLines (by simpa using fun a ha => (h a ha).1.binary hmark (h a ha).2)
  exact ((((AllContained.evident rfl).append htable).append (.evident rfl)).append hset).append
    (contained_where (by simpa))

theorem contained_delete {table condition : List Lexeme} (htable : AllContained table)
    (hcondition : AllContained condition) : AllContained (deleteBody table condition) :=
  ((AllContained.evident rfl).append htable).append (contained_where (by simpa))

/-! ### Statements that define tables -/

theorem contained_definition {d : ColumnDefinition} (h : ColumnDefinition.ofField f = .ok d) :
    d.column = f.columnName ∧ NameKind.column.admits d.column = true ∧ AllContained d.lexemes := by
  obtain ⟨native, -, h₁⟩ := bind_eq_ok.mp h
  obtain ⟨column, hcolumn, h₂⟩ := bind_eq_ok.mp h₁
  obtain ⟨declaration, hdeclaration, h₃⟩ := bind_eq_ok.mp h₂
  obtain rfl := pure_eq_ok.mp h₃
  refine ⟨(checkedColumn_ok hcolumn).1, (checkedColumn_ok hcolumn).2, ?_⟩
  have hdeclared : AllContained [space, word declaration, space] :=
    .cons (.blank (by decide)) (.cons (.declaration (liftType_ok hdeclaration))
      (.evident rfl))
  have hnull : ∀ nullable : Bool,
      AllContained (words (if nullable then ["NULL"] else ["NOT", "NULL"])) := by
    intro nullable
    cases nullable with
    | false => exact .evident rfl
    | true => exact .evident rfl
  have hoption : ∀ (chosen : Bool) (ls : List Lexeme), ls.all Lexeme.isEvident = true →
      AllContained (if chosen then ls else []) := by
    intro chosen ls hls
    cases chosen with
    | false => exact .nil
    | true => exact .evident hls
  exact ((((contained_column hcolumn).append hdeclared).append (hnull _)).append
    (hoption _ _ rfl)).append (hoption _ _ rfl)

theorem contained_primaryKey {keys : List KeyDefinition}
    (h : TableDefinition.primaryKey m = .ok keys) : ∀ k ∈ keys, AllContained k.lexemes := by
  obtain ⟨columns, hcolumns, h₁⟩ := bind_eq_ok.mp h
  obtain rfl := pure_eq_ok.mp h₁
  split_ifs
  · simp
  · intro k hk
    obtain rfl := List.mem_singleton.mp hk
    have hnames : ∀ ls ∈ columns.map (fun c => [Lexeme.name c]), AllContained ls := by
      intro ls hls
      obtain ⟨column, hcolumn, rfl⟩ := List.mem_map.mp hls
      obtain ⟨f, -, hchecked⟩ := exists_mem_of_mapM hcolumns hcolumn
      exact contained_column hchecked
    have hbegin : AllContained (words ["PRIMARY", "KEY"] ++ [space, mark "("]) := .evident rfl
    exact (hbegin.append (.commaSeparated hnames)).append (.evident rfl)

theorem contained_uniqueKey {k : KeyDefinition} (h : TableDefinition.uniqueKey f = .ok k)
    (hcolumn : NameKind.column.admits f.columnName = true) : AllContained k.lexemes := by
  -- only the name of the key is checked here
  obtain ⟨⟨⟩, hcheck, h₁⟩ := bind_eq_ok.mp h
  obtain rfl := pure_eq_ok.mp h₁
  have hbegin : AllContained (words ["UNIQUE", "KEY"] ++ [space]) := .evident rfl
  have hindex : AllContained [.name ("UQ_" ++ f.columnName)] :=
    .name (by decide) (checkName_ok.mp hcheck)
  have hopen : AllContained [space, mark "("] := .evident rfl
  have hclose : AllContained [mark ")"] := .evident rfl
  exact hbegin.append (hindex.append (hopen.append ((AllContained.column hcolumn).append hclose)))

theorem contained_tableDefinition {d : TableDefinition} (h : TableDefinition.ofModel m = .ok d) :
    AllContained d.lexemes := by
  rw [TableDefinition.ofModel] at h
  split_ifs at h
  · exact absurd h throw_bind_ne_ok
  · obtain ⟨columns, hcolumns, h₁⟩ := bind_eq_ok.mp h
    obtain ⟨primary, hprimary, h₂⟩ := bind_eq_ok.mp h₁
    obtain ⟨unique, hunique, h₃⟩ := bind_eq_ok.mp h₂
    obtain rfl := pure_eq_ok.mp h₃
    -- every field has a column definition, where its name is checked
    have hfields : ∀ f ∈ m.fields, NameKind.column.admits f.columnName = true := by
      intro f hf
      obtain ⟨d, hd⟩ := exists_result_of_mapM hcolumns hf
      obtain ⟨hname, hadmits, -⟩ := contained_definition hd
      exact hname ▸ hadmits
    refine .commaLines fun ls hls => ?_
    rcases List.mem_append.mp hls with hls | hls
    · obtain ⟨column, hcolumn, rfl⟩ := List.mem_map.mp hls
      obtain ⟨f, -, hdefinition⟩ := exists_mem_of_mapM hcolumns hcolumn
      exact (contained_definition hdefinition).2.2
    · obtain ⟨key, hkey, rfl⟩ := List.mem_map.mp hls
      rcases List.mem_append.mp hkey with hkey | hkey
      · exact contained_primaryKey hprimary key hkey
      · obtain ⟨f, hf, hdefinition⟩ := exists_mem_of_mapM hunique hkey
        exact contained_uniqueKey hdefinition (hfields f (List.mem_of_mem_filter hf))

theorem contained_position {index : Nat} {p : ColumnPosition}
    (h : ColumnPosition.ofIndex m index = .ok p) : AllContained p.lexemes := by
  rw [ColumnPosition.ofIndex.eq_def] at h
  split at h
  · obtain rfl := Except.ok.inj h
    exact .evident rfl
  · split at h
    · obtain ⟨column, hcolumn, h₁⟩ := bind_eq_ok.mp h
      obtain rfl := pure_eq_ok.mp h₁
      have hafter : AllContained [word "AFTER", space] := .evident rfl
      exact hafter.append (contained_column hcolumn)
    · obtain rfl := Except.ok.inj h
      exact .evident rfl

theorem contained_alterTable {table : List Lexeme} (h : AllContained table) :
    AllContained (alterTable table) := by
  have hbegin : AllContained (words ["ALTER", "TABLE"] ++ [space]) := .evident rfl
  exact (hbegin.append h).append (.evident rfl)

theorem contained_createTable {table : List Lexeme} {d : TableDefinition}
    (htable : AllContained table) (hd : AllContained d.lexemes) :
    AllContained (createTableBody table d) :=
  ((((AllContained.evident rfl).append htable).append (.evident rfl)).append hd).append
    (.evident rfl)

theorem contained_addColumn {table : List Lexeme} {d : ColumnDefinition} {p : ColumnPosition}
    (htable : AllContained table) (hd : AllContained d.lexemes) (hp : AllContained p.lexemes) :
    AllContained (addColumnBody table d p) :=
  (((((contained_alterTable htable).append (.evident rfl)).append (.evident rfl)).append hd).append
    (.evident rfl)).append hp

theorem contained_dropColumn {database table column : String}
    (hdatabase : NameKind.database.admits database = true)
    (htable : NameKind.table.admits table = true)
    (hcolumn : NameKind.column.admits column = true) :
    AllContained (dropColumnBody database table column) := by
  have hdrop : AllContained (words ["DROP", "COLUMN"]) := .evident rfl
  have hend : AllContained ([space] ++ [.name column]) :=
    (AllContained.evident rfl).append (.column hcolumn)
  exact ((contained_alterTable (contained_qualified hdatabase (by decide) htable)).append
    hdrop).append hend

theorem contained_dropProcedure {database name : String}
    (hdatabase : NameKind.database.admits database = true)
    (hname : NameKind.procedure.admits name = true) :
    AllContained (dropProcedureBody database name) :=
  (AllContained.evident rfl).append (contained_qualified hdatabase (by decide) hname)

end Parts

/-! ### Statements -/

/-- A statement of contained lexemes with a semicolon behind them. -/
def Statement.IsContained (s : Statement) : Prop :=
  ∃ body, s.text = Lexeme.text (body ++ [mark ";"]) ∧ AllContained body

/-- A statement that one of the builders made, from an accepted filter if from any. -/
inductive Statement.Built : Statement → Prop
  | selectTop {c : Compiler} {m : RowModel} {filter : Option Filter} {order : Option OrderBy}
      {s : Statement} (accepted : ∀ f ∈ filter, f.Accepted)
      (made : c.selectTop m filter order = .ok s) : Built s
  | selectPage {c : Compiler} {m : RowModel} {order : OrderBy} {filter : Option Filter}
      {s : Statement} (accepted : ∀ f ∈ filter, f.Accepted)
      (made : c.selectPage m order filter = .ok s) : Built s
  | count {c : Compiler} {m : RowModel} {filter : Option Filter} {s : Statement}
      (accepted : ∀ f ∈ filter, f.Accepted) (made : c.count m filter = .ok s) : Built s
  | insert {c : Compiler} {m : RowModel} {s : Statement} (made : c.insert m = .ok s) : Built s
  | update {c : Compiler} {m : RowModel} {filter : Filter} {s : Statement}
      (accepted : filter.Accepted) (made : c.update m filter = .ok s) : Built s
  | delete {c : Compiler} {m : RowModel} {filter : Filter} {s : Statement}
      (accepted : filter.Accepted) (made : c.delete m filter = .ok s) : Built s
  | createTable {c : Compiler} {m : RowModel} {s : Statement}
      (made : c.createTable m = .ok s) : Built s
  | addColumn {c : Compiler} {m : RowModel} {property : String} {s : Statement}
      (made : c.addColumn m property = .ok s) : Built s
  | dropColumn {database table column : String} {s : Statement}
      (made : TypedSql.dropColumn database table column = .ok s) : Built s
  | dropProcedure {database name : String} {s : Statement}
      (made : Procedure.drop database name = .ok s) : Built s

namespace Statement

variable {c : Compiler} {m : RowModel} {s : Statement}

theorem isContained_ofBody {body : List Lexeme} {parameters : List Parameter}
    (h : AllContained body) : (ofBody body parameters).IsContained :=
  ⟨body, rfl, h⟩

theorem isContained_selectTop {filter : Option Filter} {order : Option OrderBy}
    (accepted : ∀ f ∈ filter, f.Accepted) (h : c.selectTop m filter order = .ok s) :
    s.IsContained := by
  obtain ⟨items, table, conditions, parameters, rowOrder, count, hhead, hparts, horder, -, rfl⟩ :=
    Compiler.selectTop_ok h
  obtain ⟨hitems, htable⟩ := contained_selectHead hhead
  exact isContained_ofBody (contained_select hitems htable (contained_filterParts accepted hparts)
    (contained_rowOrder horder))

theorem isContained_selectPage {filter : Option Filter} {order : OrderBy}
    (accepted : ∀ f ∈ filter, f.Accepted) (h : c.selectPage m order filter = .ok s) :
    s.IsContained := by
  obtain ⟨keyField, key, items, table, conditions, parameters, ascending, start, count, -, hkey,
    hhead, hparts, -, -, -, rfl⟩ := Compiler.selectPage_ok h
  obtain ⟨hitems, htable⟩ := contained_selectHead hhead
  exact isContained_ofBody (contained_page hitems htable (contained_filterParts accepted hparts)
    (checkedColumn_ok hkey).2)

theorem isContained_count {filter : Option Filter} (accepted : ∀ f ∈ filter, f.Accepted)
    (h : c.count m filter = .ok s) : s.IsContained := by
  obtain ⟨table, conditions, parameters, htable, hparts, rfl⟩ := Compiler.count_ok h
  exact isContained_ofBody
    (contained_count (contained_table htable) (contained_filterParts accepted hparts))

theorem isContained_insert (h : c.insert m = .ok s) : s.IsContained := by
  obtain ⟨table, written, parameters, htable, hwritten, rfl⟩ := Compiler.insert_ok h
  have hassignments := contained_assignments hwritten
  exact isContained_ofBody (contained_insert (contained_table htable) hassignments)

theorem isContained_update {filter : Filter} (accepted : filter.Accepted)
    (h : c.update m filter = .ok s) : s.IsContained := by
  obtain ⟨table, written, own, condition, parameters, htable, hwritten, hcondition, -, rfl⟩ :=
    Compiler.update_ok h
  exact isContained_ofBody (contained_update (contained_table htable)
    (contained_assignments hwritten) (contained_condition accepted hcondition))

theorem isContained_delete {filter : Filter} (accepted : filter.Accepted)
    (h : c.delete m filter = .ok s) : s.IsContained := by
  obtain ⟨table, condition, parameters, htable, hcondition, -, rfl⟩ := Compiler.delete_ok h
  exact isContained_ofBody
    (contained_delete (contained_table htable) (contained_condition accepted hcondition))

theorem isContained_createTable (h : c.createTable m = .ok s) : s.IsContained := by
  obtain ⟨definition, table, hdefinition, htable, rfl⟩ := Compiler.createTable_ok h
  exact isContained_ofBody
    (contained_createTable (contained_table htable) (contained_tableDefinition hdefinition))

theorem isContained_addColumn {property : String} (h : c.addColumn m property = .ok s) :
    s.IsContained := by
  obtain ⟨index, f, position, table, definition, -, -, hposition, htable, hdefinition, rfl⟩ :=
    Compiler.addColumn_ok h
  exact isContained_ofBody (contained_addColumn (contained_table htable)
    (contained_definition hdefinition).2.2 (contained_position hposition))

theorem isContained_dropColumn {database table column : String}
    (h : TypedSql.dropColumn database table column = .ok s) : s.IsContained := by
  obtain ⟨hdatabase, htable, hcolumn, rfl⟩ := dropColumn_ok h
  exact isContained_ofBody (contained_dropColumn hdatabase htable hcolumn)

theorem isContained_dropProcedure {database name : String}
    (h : Procedure.drop database name = .ok s) : s.IsContained := by
  obtain ⟨hdatabase, hname, rfl⟩ := dropProcedure_ok h
  exact isContained_ofBody (contained_dropProcedure hdatabase hname)

theorem Built.isContained (h : s.Built) : s.IsContained := by
  cases h with
  | selectTop accepted made => exact isContained_selectTop accepted made
  | selectPage accepted made => exact isContained_selectPage accepted made
  | count accepted made => exact isContained_count accepted made
  | insert made => exact isContained_insert made
  | update accepted made => exact isContained_update accepted made
  | delete accepted made => exact isContained_delete accepted made
  | createTable made => exact isContained_createTable made
  | addColumn made => exact isContained_addColumn made
  | dropColumn made => exact isContained_dropColumn made
  | dropProcedure made => exact isContained_dropProcedure made

/-- Nothing breaks out of a built statement: its text is confined, and it is spelled by fixed words
and marks, declared types, checked names, placeholders and numbers. -/
theorem Built.confined (h : s.Built) :
    Confined s.text.toList ∧
      ∃ body, s.text = Lexeme.text (body ++ [mark ";"]) ∧ ∀ l ∈ body, l.Contained := by
  obtain ⟨body, htext, hbody⟩ := h.isContained
  exact ⟨htext ▸ confined_text hbody, body, htext, hbody⟩

/-- A number with a sign behind an operator begins no comment. -/
theorem confined_delete :
    Confined "DELETE FROM `shop`.`stock`\nWHERE (`LEFT_OVER` < -2);".toList := by
  have hparse : Filter.parse "row => row.LeftOver < -2" [] =
      .ok ⟨.compare .lt (.field "LeftOver") (.literal (.integer (-2))), []⟩ := rfl
  have hmade : Compiler.delete ⟨"shop", by decide⟩
      ⟨"Stock", "stock", [{ property := "LeftOver", host := ⟨.i32, false⟩ }]⟩
      ⟨.compare .lt (.field "LeftOver") (.literal (.integer (-2))), []⟩ =
        .ok ⟨"DELETE FROM `shop`.`stock`\nWHERE (`LEFT_OVER` < -2);", []⟩ := by
    decide +kernel
  exact (Built.delete (.parse hparse) hmade).confined.1

end Statement

end TypedSql
