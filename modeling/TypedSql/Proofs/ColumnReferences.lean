/-
The columns that a statement refers to.

A name in a statement is that of a column, unless it is one of the two names of a table, the name of
a key, or what a column is read as (`Statement.columns`).

* `splitOn_text` — the parts of a text between its backticks;
* `Refers` — lexemes whose names of columns are those of a model;
* `refers_lexemes` — the condition of an expression is made of such lexemes;
* `Statement.OnRows.exists_field` — a statement on the rows of a model refers to its columns only.
-/
import TypedSql.Proofs.Parameters

namespace TypedSql

open Lexeme (word mark blank space words placeholder qualified)

/-! ### Columns in a text -/

/-- Whether the name between two texts is that of a column. -/
def isColumnBetween (before after : List Char) : Bool :=
  before != ['.'] && after != ['.'] &&
    [" AS ", " KEY "].all fun text => !text.toList.isSuffixOf before

/-- The columns among the names in a text. The parts of the text are what stands in front of the
first name, that name, what stands between it and the next one, and so on. -/
def columnsOfParts : List (List Char) → List String
  | before :: name :: after :: rest =>
    if isColumnBetween before after then String.ofList name :: columnsOfParts (after :: rest)
    else columnsOfParts (after :: rest)
  | _ => []

/-- The columns that a statement refers to, in order. -/
def Statement.columns (s : Statement) : List String :=
  columnsOfParts (s.text.toList.splitOn '\x60')

theorem mem_columnsOfParts {before name after : List Char} {rest : List (List Char)}
    {column : String} (h : column ∈ columnsOfParts (before :: name :: after :: rest)) :
    isColumnBetween before after = true ∧ column = String.ofList name ∨
      column ∈ columnsOfParts (after :: rest) := by
  rw [columnsOfParts] at h
  split_ifs at h with hbetween
  · exact (List.mem_cons.mp h).imp_left fun heq => ⟨hbetween, heq⟩
  · exact .inr h

theorem splitOn_append {q : Char} {xs : List Char} (h : q ∉ xs) (ys : List Char) :
    (xs ++ ys).splitOn q = (ys.splitOn q).modifyHead (xs ++ ·) := by
  induction xs with
  | nil => exact (congrFun List.modifyHead_id _).symm
  | cons c xs ih =>
    rw [List.mem_cons, not_or] at h
    have hc : ¬ (c == q) = true := by simpa using fun heq => h.1 heq.symm
    rw [List.cons_append, List.splitOn_cons_eq_if_modifyHead, if_neg hc, ih h.2,
      List.modifyHead_modifyHead]
    rfl

/-! ### Parts of the text of lexemes -/

namespace Lexeme

/-- The text of a lexeme, without the backticks around a name. -/
def bare : Lexeme → List Char
  | name text => text.toList
  | l => l.spell.toList

/-- Whether a lexeme is no name. -/
def isNameless : Lexeme → Bool
  | name _ => false
  | _ => true

/-- The parts of the text that lexemes spell: the names, and what stands between them. -/
def parts : List Lexeme → List (List Char)
  | [] => [[]]
  | name text :: rest => [] :: text.toList :: parts rest
  | l :: rest => (parts rest).modifyHead (l.bare ++ ·)

theorem exists_parts (ls : List Lexeme) : ∃ part rest, parts ls = part :: rest := by
  induction ls with
  | nil => exact ⟨_, _, rfl⟩
  | cons l ls ih =>
    obtain ⟨part, rest, heq⟩ := ih
    cases l with
    | name text => exact ⟨_, _, rfl⟩
    | _ => exact ⟨_, rest, by rw [parts, heq, List.modifyHead_cons]; simp⟩

theorem parts_nameless {l : Lexeme} (h : l.isNameless = true) (rest : List Lexeme) :
    parts (l :: rest) = (parts rest).modifyHead (l.bare ++ ·) := by
  cases l with
  | name text => exact absurd h (by simp [isNameless])
  | _ => rfl

theorem spell_nameless {l : Lexeme} (h : l.isNameless = true) : l.spell.toList = l.bare := by
  cases l with
  | name text => exact absurd h (by simp [isNameless])
  | _ => rfl

/-- If there are backticks around names only, they part the text of lexemes. -/
theorem splitOn_text {ls : List Lexeme} (h : ∀ l ∈ ls, '\x60' ∉ l.bare) :
    (text ls).toList.splitOn '\x60' = parts ls := by
  induction ls with
  | nil => rfl
  | cons l ls ih =>
    obtain ⟨hfirst, hrest⟩ := List.forall_mem_cons.mp h
    rw [toList_text_cons]
    cases hnameless : l.isNameless with
    | true =>
      rw [spell_nameless hnameless, splitOn_append hfirst, ih hrest, parts_nameless hnameless]
    | false =>
      obtain ⟨name, rfl⟩ : ∃ name, l = .name name := by
        cases l with
        | name text => exact ⟨text, rfl⟩
        | _ => exact absurd hnameless (by simp [isNameless])
      have hspell : (Lexeme.name name).spell.toList ++ (text ls).toList =
          '\x60' :: (name.toList ++ '\x60' :: (text ls).toList) := by
        simp [spell]
      rw [bare] at hfirst
      rw [hspell, List.splitOn_cons_eq_if_modifyHead, if_pos (by simp),
        List.splitOn_append_cons_self_of_not_mem hfirst, ih hrest, parts]

/-- A contained lexeme has backticks around a name only. -/
theorem Contained.notMem_bare {l : Lexeme} (h : l.Contained) : '\x60' ∉ l.bare := by
  have hplain {text : String} (htext : isPlainText text = true) : '\x60' ∉ text.toList :=
    fun hmem => isPlainText_iff.mp htext _ hmem (by decide)
  have hidentifier {text : String} (htext : ∀ c ∈ text.toList, Text.isIdentifierChar c = true) :
      '\x60' ∉ text.toList := fun hmem => absurd (htext _ hmem) (by decide)
  have hnumeral {cs : List Char} (hcs : Number.Signed cs) : '\x60' ∉ cs := fun hmem =>
    forall_of_signed (p := (· ≠ '\x60')) (by rintro c hc rfl; exact absurd hc (by decide))
      (by simp) hcs _ hmem rfl
  cases h with
  | blank known => exact hplain (isPlainText_of_mem (by decide +kernel) known)
  | word known => exact hplain (isPlainText_of_mem (by decide +kernel) known)
  | declaration written => exact hplain (isPlainText_write written)
  | mark known => exact hplain (isPlainText_of_mem (by decide +kernel) known)
  | name notVariable checked => exact hidentifier (isIdentifierChar_of_admits notVariable checked)
  | placeholder checked =>
    have hat : '\x60' ∉ "@".toList := by decide
    rw [← spell_nameless rfl, spell, String.toList_append, List.mem_append, not_or]
    exact ⟨hat, hidentifier (isIdentifierChar_of_isParameterName checked)⟩
  | integer value => exact hnumeral (Number.signed_toString _)
  | number finite => exact hnumeral (Number.signed_write _ _ finite)
  | anyText => decide

end Lexeme

/-! ### Columns of a model -/

/-- Lexemes whose names of columns are those of a model. -/
inductive Refers (m : RowModel) : List Lexeme → Prop
  | nil : Refers m []
  | other {l : Lexeme} {rest : List Lexeme} (nameless : l.isNameless = true)
      (behind : Refers m rest) : Refers m (l :: rest)
  | column {f : Field} {rest : List Lexeme} (mem : f ∈ m.fields) (behind : Refers m rest) :
      Refers m (.name f.columnName :: rest)
  | table {database table : String} {rest : List Lexeme} (behind : Refers m rest) :
      Refers m (.name database :: mark "." :: .name table :: rest)
  | readAs {property : String} {rest : List Lexeme} (behind : Refers m rest) :
      Refers m (space :: word "AS" :: space :: .name property :: rest)

namespace Refers

variable {m : RowModel} {xs ys : List Lexeme}

theorem append (h : Refers m xs) (h' : Refers m ys) : Refers m (xs ++ ys) := by
  induction h with
  | nil => exact h'
  | other nameless _ ih => exact .other nameless ih
  | column mem _ ih => exact .column mem ih
  | table _ ih => exact .table ih
  | readAs _ ih => exact .readAs ih

theorem evident (h : xs.all Lexeme.isNameless = true) : Refers m xs := by
  induction xs with
  | nil => exact .nil
  | cons l rest ih =>
    rw [List.all_cons, Bool.and_eq_true] at h
    exact .other h.1 (ih h.2)

theorem field {f : Field} (mem : f ∈ m.fields) : Refers m [.name f.columnName] :=
  .column mem .nil

/-- The columns in the text are those of the model, whatever stands in front of the text. -/
theorem exists_field (h : Refers m xs) (before : List Char) {column : String}
    (hcolumn : column ∈ columnsOfParts ((Lexeme.parts xs).modifyHead (before ++ ·))) :
    ∃ f ∈ m.fields, f.columnName = column := by
  induction h generalizing before with
  | nil => exact absurd hcolumn (by simp [Lexeme.parts, columnsOfParts])
  | @other l rest nameless _ ih =>
    refine ih (before ++ l.bare) ?_
    rw [Lexeme.parts_nameless nameless, List.modifyHead_modifyHead] at hcolumn
    simpa [Function.comp_def] using hcolumn
  -- behind a name, the text begins anew
  | @column f rest mem _ ih =>
    obtain ⟨after, more, hmore⟩ := Lexeme.exists_parts rest
    rw [hmore] at ih
    rw [Lexeme.parts, hmore] at hcolumn
    obtain ⟨-, rfl⟩ | hbehind := mem_columnsOfParts hcolumn
    · exact ⟨f, mem, by rw [String.ofList_toList]⟩
    · exact ih [] hbehind
  | @table database table rest _ ih =>
    obtain ⟨after, more, hmore⟩ := Lexeme.exists_parts rest
    rw [hmore] at ih
    have hparts : Lexeme.parts (.name database :: mark "." :: .name table :: rest) =
        [] :: database.toList :: ['.'] :: table.toList :: after :: more := by
      rw [← hmore]
      rfl
    rw [hparts] at hcolumn
    obtain ⟨hbetween, -⟩ | htable := mem_columnsOfParts hcolumn
    · exact absurd hbetween (by simp [isColumnBetween])
    obtain ⟨hbetween, -⟩ | hbehind := mem_columnsOfParts htable
    · exact absurd hbetween (by simp [isColumnBetween])
    · exact ih [] hbehind
  | @readAs property rest _ ih =>
    obtain ⟨after, more, hmore⟩ := Lexeme.exists_parts rest
    rw [hmore] at ih
    have hparts : Lexeme.parts (space :: word "AS" :: space :: .name property :: rest) =
        " AS ".toList :: property.toList :: after :: more := by
      rw [← hmore]
      rfl
    rw [hparts] at hcolumn
    obtain ⟨hbetween, -⟩ | hbehind := mem_columnsOfParts hcolumn
    · exact absurd hbetween (by simp [isColumnBetween])
    · exact ih [] hbehind

theorem joined {separator : List Lexeme} {parts : List (List Lexeme)}
    (hseparator : Refers m separator) (h : ∀ ls ∈ parts, Refers m ls) :
    Refers m (Lexeme.joined separator parts) :=
  Lexeme.joined_induction nil (fun hx hy => (hx.append hseparator).append hy) h

theorem commaLines {parts : List (List Lexeme)} (h : ∀ ls ∈ parts, Refers m ls) :
    Refers m (Lexeme.commaLines parts) :=
  joined (evident rfl) h

theorem sqlCall (function : String) {parts : List (List Lexeme)} (h : ∀ ls ∈ parts, Refers m ls) :
    Refers m (TypedSql.sqlCall function parts) :=
  .other rfl (.other rfl ((joined (evident rfl) h).append (evident rfl)))

theorem binary {operator : Lexeme} (hx : Refers m xs) (hoperator : operator.isNameless = true)
    (hy : Refers m ys) : Refers m (TypedSql.binary xs operator ys) :=
  (hx.append (.other rfl (.other hoperator (evident rfl)))).append hy

theorem parenthesized (h : Refers m xs) : Refers m (mark "(" :: (xs ++ [mark ")"])) :=
  .other rfl (h.append (evident rfl))

end Refers

/-! ### Conditions -/

section Conditions

variable {m : RowModel}

theorem refers_nullTest (negated : Bool) : Refers m (nullTest negated) := by
  cases negated with
  | false => exact .evident rfl
  | true => exact .evident rfl

theorem refers_literal {value : Literal} {ls : List Lexeme} (h : value.lexemes = .ok ls) :
    Refers m ls := by
  cases value with
  | text value => exact absurd h (by simp [Literal.lexemes])
  | number value =>
    rw [Literal.lexemes] at h
    split_ifs at h
    obtain rfl := Except.ok.inj h
    exact .evident rfl
  | _ =>
    obtain rfl := Except.ok.inj h
    exact .evident rfl

theorem refers_comparison {op : Comparison} {xs inner : List Lexeme}
    {ys : Except CompileError (List Lexeme)} {rightNull : Bool}
    (h : ComparisonLexemes op xs ys rightNull inner) (first : Refers m xs)
    (second : ∀ {ls}, ys = .ok ls → Refers m ls) : Refers m inner := by
  cases h with
  | nullTest negated _ _ => exact first.append (refers_nullTest negated)
  | binary _ hys => exact first.binary rfl (second hys)

theorem refers_method (method : Method) {receiver argument : List Lexeme}
    (hreceiver : Refers m receiver) (hargument : Refers m argument) :
    Refers m (method.lexemes receiver argument) := by
  have hone : ∀ {function : String} {ls : List Lexeme}, Refers m ls →
      Refers m (sqlCall function [ls]) :=
    fun hls => .sqlCall _ (by simpa using hls)
  have hmatching : ∀ {pattern : List (List Lexeme)}, (∀ ls ∈ pattern, Refers m ls) →
      Refers m (binary receiver (word "LIKE") (sqlCall "CONCAT" pattern)) :=
    fun hpattern => hreceiver.binary rfl (.sqlCall _ hpattern)
  have hany : Refers m [.anyText] := .evident rfl
  cases method with
  | contains => exact hmatching (by simp [hany, hargument])
  | startsWith => exact hmatching (by simp [hany, hargument])
  | endsWith => exact hmatching (by simp [hany, hargument])
  | equals ignoreCase =>
    cases ignoreCase with
    | false => exact hreceiver.binary rfl hargument
    | true => exact (hone hreceiver).binary rfl (hone hargument)
  | toUpper => exact hone hreceiver
  | toLower => exact hone hreceiver
  | hasValue => exact hreceiver.append (refers_nullTest true)
  | value => exact hreceiver

theorem refers_property {property : String} {ls : List Lexeme}
    (h : (Expr.field property).lexemes m = .ok ls) : Refers m ls := by
  rw [Expr.lexemes] at h
  obtain ⟨f, hlookup, h₁⟩ := bind_eq_ok.mp h
  obtain ⟨l, hcolumn, h₂⟩ := bind_eq_ok.mp h₁
  obtain rfl := pure_eq_ok.mp h₂
  obtain ⟨-, rfl⟩ := columnLexeme_ok.mp hcolumn
  exact .field (List.mem_of_find?_eq_some (lookup_ok hlookup))

/-- The condition of an expression refers to columns of the model only. -/
theorem refers_lexemes {e : Expr} {ls : List Lexeme} (h : e.lexemes m = .ok ls) : Refers m ls := by
  induction e using Expr.induction generalizing ls with
  | field property => exact refers_property h
  | param name =>
    obtain rfl := Except.ok.inj h
    exact .evident rfl
  | literal value => exact refers_literal h
  | now clock =>
    cases clock with
    | localTime =>
      obtain rfl := Except.ok.inj h
      exact .evident rfl
    | utc =>
      obtain rfl := Except.ok.inj h
      exact .evident rfl
  | compare op left right ihleft ihright =>
    obtain ⟨inner, rfl, hinner⟩ := lexemes_compare_ok h
    split_ifs at hinner
    · obtain ⟨xs, hxs, hcomparison⟩ := hinner
      exact (refers_comparison hcomparison (ihright hxs) ihleft).parenthesized
    · obtain ⟨xs, hxs, hcomparison⟩ := hinner
      exact (refers_comparison hcomparison (ihleft hxs) ihright).parenthesized
  | logical op operands ih =>
    rw [Expr.lexemes] at h
    obtain ⟨parts, hparts, h₁⟩ := bind_eq_ok.mp h
    obtain rfl := pure_eq_ok.mp h₁
    have heach : ∀ ls ∈ parts, Refers m ls := by
      intro ls hls
      obtain ⟨e, he, hlexemes⟩ := exists_mem_of_forall₂ (lexemesOfList_ok hparts) hls
      exact ih e he hlexemes
    exact Refers.parenthesized (.joined (.evident rfl) heach)
  | not operand ih =>
    rw [Expr.lexemes] at h
    obtain ⟨inner, hinner, h₁⟩ := bind_eq_ok.mp h
    obtain rfl := pure_eq_ok.mp h₁
    exact .other rfl (.other rfl (ih hinner))
  | call method receiver arguments ih iharguments =>
    obtain ⟨subject, hsubject, ⟨rfl, rfl⟩ | ⟨first, rest, argument, rfl, hargument, rfl⟩⟩ :=
      lexemes_call_ok h
    · exact refers_method _ (ih hsubject) .nil
    · exact refers_method _ (ih hsubject) (iharguments first (by simp) hargument)

end Conditions

/-! ### Statements -/

section Statements

variable {c : Compiler} {m : RowModel} {table : List Lexeme} {conditions : List (List Lexeme)}

theorem refers_table (h : c.tableLexemes m = .ok table) : Refers m table := by
  rw [(tableLexemes_ok h).2]
  exact .table .nil

theorem refers_filterParts {filter : Option Filter} {parameters : List Parameter}
    (h : filterParts m filter = .ok (conditions, parameters)) : ∀ ls ∈ conditions, Refers m ls := by
  obtain ⟨-, rfl, -⟩ | ⟨f, condition, rfl, hcondition, rfl, -⟩ := filterParts_ok h
  · simp
  · simpa using refers_lexemes hcondition

theorem refers_where (h : ∀ ls ∈ conditions, Refers m ls) : Refers m (whereLexemes conditions) := by
  rw [whereLexemes]
  split_ifs
  · exact .nil
  · exact (Refers.evident rfl).append (.joined (.evident rfl) h)

theorem refers_selectItem {f : Field} (mem : f ∈ m.fields) {item : SelectItem}
    (h : SelectItem.ofField f = .ok item) : Refers m item.lexemes := by
  obtain ⟨hname, -⟩ := selectItem_ok h
  rw [SelectItem.lexemes.eq_def, hname]
  split
  · exact .field mem
  · exact .column mem (.readAs .nil)

theorem refers_selectHead {items : List SelectItem} (h : c.selectHead m = .ok (items, table)) :
    (∀ i ∈ items, Refers m i.lexemes) ∧ Refers m table := by
  obtain ⟨-, hitems, htable⟩ := selectHead_ok h
  refine ⟨fun i hi => ?_, refers_table htable⟩
  obtain ⟨f, hf, hitem⟩ := exists_mem_of_forall₂ ((List.forall₂_and_left _ _).mpr
    ⟨fun _ => id, hitems⟩) hi
  exact refers_selectItem hf hitem.2

theorem refers_select {s : Select} (items : ∀ i ∈ s.items, Refers m i.lexemes)
    (table : Refers m s.table) (conditions : ∀ ls ∈ s.conditions, Refers m ls)
    (order : Refers m s.order.lexemes) : Refers m s.body := by
  have hitems : Refers m (Lexeme.commaLines (s.items.map SelectItem.lexemes)) :=
    .commaLines (by simpa using items)
  exact (((((Refers.evident rfl).append hitems).append (.evident rfl)).append table).append
    (refers_where conditions)).append order |>.append (.evident rfl)

/-- The field that an order is by, and the column that is its key. -/
theorem exists_field_of_lookup {property column : String} {f : Field}
    (hfield : m.lookup property = .ok f) (hcolumn : f.checkedColumn = .ok column) :
    f ∈ m.fields ∧ f.columnName = column :=
  ⟨List.mem_of_find?_eq_some (lookup_ok hfield), (checkedColumn_ok hcolumn).1.symm⟩

theorem refers_rowOrder {order : Option OrderBy} {rowOrder : RowOrder}
    (h : Compiler.rowOrder m order = .ok rowOrder) : Refers m rowOrder.lexemes := by
  obtain ⟨-, rfl⟩ | ⟨o, f, column, -, hfield, hcolumn, rfl⟩ := Compiler.rowOrder_ok h
  · exact .nil
  · obtain ⟨mem, rfl⟩ := exists_field_of_lookup hfield hcolumn
    have hbegin : Refers m (blank "\n" :: (words ["ORDER", "BY"] ++ [space])) := .evident rfl
    exact hbegin.append (.column mem (.evident rfl))

section Pages

variable {f : Field} (mem : f ∈ m.fields)
include mem

theorem refers_pageSortKey (order : SortOrder) : Refers m (pageSortKey f.columnName order) := by
  have hbegin : Refers m [space, placeholder ascendingName, space, word "THEN", space] :=
    .evident rfl
  have hend : Refers m [space, word "END", space, word order.keyword] := .evident rfl
  have hbehind := hbegin.append (.column mem hend)
  cases order with
  | ascending =>
    have hcase : Refers m (words ["CASE", "WHEN"]) := .evident rfl
    exact hcase.append hbehind
  | descending =>
    have hcase : Refers m (words ["CASE", "WHEN", "NOT"]) := .evident rfl
    exact hcase.append hbehind

theorem refers_byPage : Refers m (RowOrder.byPage f.columnName).lexemes := by
  have hbegin : Refers m (blank "\n" :: (words ["ORDER", "BY"] ++ [blank "\n\t"])) := .evident rfl
  exact hbegin.append (.commaLines (by simp [refers_pageSortKey mem]))

theorem refers_pageCondition : Refers m (pageCondition f.columnName) := by
  have hbegin : Refers m ([mark "(", placeholder startName, space] ++ words ["IS", "NULL"] ++
      [blank "\n\t\t", word "OR", space, mark "(", placeholder ascendingName, space, word "AND",
       space]) := .evident rfl
  have hmiddle : Refers m [space, mark ">", space, placeholder startName, mark ")",
      blank "\n\t\t", word "OR", space, mark "(", word "NOT", space, placeholder ascendingName,
      space, word "AND", space] := .evident rfl
  have hend : Refers m [space, mark "<", space, placeholder startName, mark ")", mark ")"] :=
    .evident rfl
  exact hbegin.append (.column mem (hmiddle.append (.column mem hend)))

end Pages

theorem refers_assignments {fields : List Field} (hfields : fields ⊆ m.fields)
    {written : List Assignment} {parameters : List Parameter}
    (h : assignments fields = .ok (written, parameters)) :
    ∀ a ∈ written, Refers m [.name a.column] ∧ Refers m a.value.lexemes := by
  obtain ⟨parts, hparts, rfl, -⟩ := assignments_ok h
  intro a ha
  obtain ⟨⟨a, parameter⟩, hpart, rfl⟩ := List.mem_map.mp ha
  obtain ⟨f, hf, hassigned⟩ := exists_mem_of_forall₂ ((List.forall₂_and_left _ _).mpr
    ⟨fun _ => id, hparts⟩) hpart
  obtain ⟨hcolumn, hvalue⟩ := assignment_ok hassigned.2
  refine ⟨(checkedColumn_ok hcolumn).1 ▸ .field (hfields hf), ?_⟩
  obtain ⟨-, hstamp, -⟩ | ⟨-, hbound, -⟩ := hvalue
  · exact hstamp ▸ .evident rfl
  · exact hbound ▸ .evident rfl

theorem refers_count (htable : Refers m table) (h : ∀ ls ∈ conditions, Refers m ls) :
    Refers m (countBody table conditions) :=
  ((Refers.evident rfl).append htable).append (refers_where h)

section Writes

variable {written : List Assignment}
  (h : ∀ a ∈ written, Refers m [.name a.column] ∧ Refers m a.value.lexemes)
include h

theorem refers_insert (htable : Refers m table) : Refers m (insertBody table written) := by
  have hnames : Refers m (Lexeme.commaLines (written.map fun a => [.name a.column])) :=
    .commaLines (by simpa using fun a ha => (h a ha).1)
  have hvalues : Refers m (Lexeme.commaLines (written.map fun a => a.value.lexemes)) :=
    .commaLines (by simpa using fun a ha => (h a ha).2)
  exact ((((((Refers.evident rfl).append htable).append (.evident rfl)).append hnames).append
    (.evident rfl)).append hvalues).append (.evident rfl)

theorem refers_update (htable : Refers m table) {condition : List Lexeme}
    (hcondition : Refers m condition) : Refers m (updateBody table written condition) := by
  have hset : Refers m (Lexeme.commaLines
      (written.map fun a => binary [.name a.column] (mark "=") a.value.lexemes)) :=
    .commaLines (by simpa using fun a ha => (h a ha).1.binary rfl (h a ha).2)
  exact ((((Refers.evident rfl).append htable).append (.evident rfl)).append hset).append
    (refers_where (by simpa))

end Writes

theorem refers_delete (htable : Refers m table) {condition : List Lexeme}
    (hcondition : Refers m condition) : Refers m (deleteBody table condition) :=
  ((Refers.evident rfl).append htable).append (refers_where (by simpa))

end Statements

/-- A statement on the rows of a model is made of contained lexemes whose names of columns are those
of the model. -/
theorem Statement.OnRows.refers {m : RowModel} {s : Statement} (h : s.OnRows m) :
    ∃ body, s = .ofBody body s.parameters ∧ AllContained body ∧ Refers m body := by
  cases h with
  | selectTop accepted made =>
    obtain ⟨_, _, _, _, _, _, hhead, hparts, horder, -, rfl⟩ := Compiler.selectTop_ok made
    have hlegible := legible_selectTop hhead (legible_filterParts accepted hparts) horder
    obtain ⟨hitems, htable⟩ := refers_selectHead hhead
    exact ⟨_, rfl, hlegible.contained,
      refers_select hitems htable (refers_filterParts hparts) (refers_rowOrder horder)⟩
  | selectPage accepted made =>
    obtain ⟨_, _, _, _, _, _, _, _, _, hfield, hkey, hhead, hparts, -, -, -, rfl⟩ :=
      Compiler.selectPage_ok made
    have hlegible :=
      legible_selectPage hhead (legible_filterParts accepted hparts) (checkedColumn_ok hkey).2
    obtain ⟨hitems, htable⟩ := refers_selectHead hhead
    obtain ⟨mem, rfl⟩ := exists_field_of_lookup hfield hkey
    refine ⟨_, rfl, hlegible.contained,
      refers_select hitems htable (List.forall_mem_append.mpr ⟨refers_filterParts hparts, ?_⟩)
        (refers_byPage mem)⟩
    simpa using refers_pageCondition mem
  | count accepted made =>
    obtain ⟨_, _, _, htable, hparts, rfl⟩ := Compiler.count_ok made
    have hlegible := legible_count (legible_table htable) (legible_filterParts accepted hparts)
    exact ⟨_, rfl, hlegible.contained,
      refers_count (refers_table htable) (refers_filterParts hparts)⟩
  | insert made =>
    obtain ⟨_, _, _, htable, hwritten, rfl⟩ := Compiler.insert_ok made
    have hlegible := legible_insert (legible_table htable) hwritten
    exact ⟨_, rfl, hlegible.contained,
      refers_insert (refers_assignments List.filter_sublist.subset hwritten) (refers_table htable)⟩
  | update accepted made =>
    obtain ⟨_, _, _, _, _, htable, hwritten, hcondition, -, rfl⟩ := Compiler.update_ok made
    have hlegible :=
      legible_update (legible_table htable) hwritten (legible_condition accepted hcondition)
    exact ⟨_, rfl, hlegible.contained,
      refers_update (refers_assignments List.filter_sublist.subset hwritten) (refers_table htable)
        (refers_lexemes hcondition)⟩
  | delete accepted made =>
    obtain ⟨_, _, _, htable, hcondition, -, rfl⟩ := Compiler.delete_ok made
    have hlegible := legible_delete (legible_table htable) (legible_condition accepted hcondition)
    exact ⟨_, rfl, hlegible.contained,
      refers_delete (refers_table htable) (refers_lexemes hcondition)⟩

/-- A statement on the rows of a model refers to columns of the model only. -/
theorem Statement.OnRows.exists_field {m : RowModel} {s : Statement} (h : s.OnRows m)
    {column : String} (hcolumn : column ∈ s.columns) : ∃ f ∈ m.fields, f.columnName = column := by
  obtain ⟨body, hs, hcontained, hrefers⟩ := h.refers
  have hbare : ∀ l ∈ body ++ [mark ";"], '\x60' ∉ l.bare :=
    List.forall_mem_append.mpr ⟨fun l hl => (hcontained l hl).notMem_bare, by decide⟩
  have hparts : s.text.toList.splitOn '\x60' = Lexeme.parts (body ++ [mark ";"]) := by
    rw [hs]
    exact Lexeme.splitOn_text hbare
  rw [columns, hparts] at hcolumn
  have hwhole : Refers m (body ++ [mark ";"]) := hrefers.append (.evident rfl)
  refine hwhole.exists_field [] ?_
  exact (congrFun List.modifyHead_id (Lexeme.parts (body ++ [mark ";"]))).symm ▸ hcolumn

example : Statement.columns ⟨"SELECT\n\t`LEFT_OVER` AS `LeftOver`,\n\t`price`\n" ++
    "FROM `shop`.`stock`\nWHERE (`price` < 3)\nLIMIT @Count;", []⟩ =
      ["LEFT_OVER", "price", "price"] := by
  decide +kernel

end TypedSql
