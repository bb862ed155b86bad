/-
The columns that an insert or an update writes.

A field is written as a column and a value, and a value that the server does not stamp has a
parameter. The three are made together, field by field, so none of them is out of step with the
others (`assignments_exact`). The type of a parameter is kept by its name alone and read again when
the parameter is declared; this gives the type that the field's column is created with, except that
members have no place in a parameter's type.

* `addFilterParams_exact` — the parameters of a filter that are put behind others;
* `Field.boundBy_of_parameter` — a parameter is declared with the type of its column;
* `exists_line_createTable` — the line of a table definition that a field's column stands on;
* `Compiler.writes_fields` — what an insert and an update write, and the parameters for it.
-/
import TypedSql.Proofs.DeclarationRoundTrip
import TypedSql.Proofs.Runs
import TypedSql.Proofs.WriteReader

namespace TypedSql

open Lexeme (word mark blank space words placeholder)

/-! ### Assignments -/

/-- What is written to the column of a field: the server's time, if this is the time at which the
row was made or last written, and otherwise the value of the field's own parameter. -/
def Field.written (f : Field) : WrittenValue :=
  if f.created || f.updated then .stamp else .bound f.property

/-- The assignment to the column of a field. -/
def Field.assignment (f : Field) : Assignment :=
  ⟨f.columnName, f.written⟩

theorem assignment_exact {f : Field} {a : Assignment} {parameter : Option Parameter}
    (h : Assignment.ofField f = .ok (a, parameter)) :
    a = f.assignment ∧ NameKind.column.admits f.columnName = true ∧
      (f.isStamped = true ∧ parameter = none ∨
        f.isStamped = false ∧ ∃ p, f.parameter = .ok p ∧ parameter = some p) := by
  obtain ⟨column, value⟩ := a
  obtain ⟨hchecked, hvalue⟩ := assignment_ok h
  obtain ⟨rfl, hadmits⟩ := checkedColumn_ok hchecked
  obtain ⟨hstamped, rfl, hnone⟩ | ⟨hbound, rfl, hparameter⟩ := hvalue
  · exact ⟨congrArg _ (if_pos hstamped).symm, hadmits, .inl ⟨hstamped, hnone⟩⟩
  · have hwritten : f.written = .bound f.property := if_neg (Bool.eq_false_iff.mp hbound)
    exact ⟨congrArg _ hwritten.symm, hadmits, .inr ⟨hbound, hparameter⟩⟩

/-- The fields are assigned in order, and those that are not stamped have their parameters in the
same order. -/
theorem assignments_exact {fields : List Field} {written : List Assignment}
    {parameters : List Parameter} (h : assignments fields = .ok (written, parameters)) :
    written = fields.map Field.assignment ∧
      (∀ f ∈ fields, NameKind.column.admits f.columnName = true) ∧
      List.Forall₂ (fun f p => f.checkedColumn = .ok f.columnName ∧ f.parameter = .ok p)
        (fields.filter fun f => !f.isStamped) parameters := by
  obtain ⟨parts, hparts, rfl, rfl⟩ := assignments_ok h
  clear h
  induction hparts with
  | nil => simp
  | cons first _ ih =>
    rename_i f part fields parts _
    obtain ⟨a, parameter⟩ := part
    obtain ⟨hwritten, hadmits, hparameters⟩ := ih
    obtain ⟨rfl, hcolumn, hparameter⟩ := assignment_exact first
    refine ⟨by rw [List.map_cons, List.map_cons, hwritten],
      List.forall_mem_cons.mpr ⟨hcolumn, hadmits⟩, ?_⟩
    obtain ⟨hstamped, rfl⟩ | ⟨hbound, p, hp, rfl⟩ := hparameter
    · simpa [hstamped] using hparameters
    · rw [List.filter_cons_of_pos (by simp [hbound])]
      exact .cons ⟨(assignment_ok first).1, hp⟩ hparameters

theorem checked_written {f : Field} (h : f.isStamped = false → ∃ p, f.parameter = .ok p) :
    f.written.Checked := by
  intro name hname
  rw [Field.written] at hname
  split_ifs at hname with hstamped
  obtain ⟨p, hp⟩ := h (Bool.eq_false_iff.mpr hstamped)
  exact WrittenValue.bound.inj hname ▸ (parameter_ok hp).2.1

theorem checked_assignment {fields : List Field} {written : List Assignment}
    {parameters : List Parameter} (h : assignments fields = .ok (written, parameters)) :
    ∀ a ∈ written, NameKind.column.admits a.column = true ∧ a.value.Checked := by
  obtain ⟨rfl, hadmits, -⟩ := assignments_exact h
  have hparameter := (assignments_agree h).2.2
  intro a ha
  obtain ⟨f, hf, rfl⟩ := List.mem_map.mp ha
  refine ⟨hadmits f hf, checked_written fun hbound => ?_⟩
  obtain ⟨p, -, hp⟩ := hparameter f hf hbound
  exact ⟨p, hp⟩

/-! ### Parameters of filters -/

/-- The parameters of a filter, each with a name of its own, are put behind others in order, except
for the names that are there. -/
theorem addFilterParams_exact {earlier all : List Parameter} {params : List FilterParam}
    (distinct : (params.map FilterParam.name).Nodup)
    (h : addFilterParams earlier params = .ok all) :
    ∃ added, all = earlier ++ added ∧
      List.Forall₂ (fun q p => Parameter.ofHost q.name q.host none = .ok p)
        (params.filter fun q => q.name ∉ earlier.map Parameter.name) added := by
  induction params generalizing earlier with
  | nil =>
    obtain rfl := Except.ok.inj h
    exact ⟨[], (List.append_nil _).symm, .nil⟩
  | cons q rest ih =>
    rw [List.map_cons, List.nodup_cons] at distinct
    obtain ⟨hfresh, hrest⟩ := distinct
    rw [addFilterParams] at h
    split_ifs at h with hknown
    · have hq : q.name ∈ earlier.map Parameter.name := by simpa using hknown
      obtain ⟨added, rfl, hadded⟩ := ih hrest h
      exact ⟨added, rfl, by rwa [List.filter_cons_of_neg (by simpa using hq)]⟩
    · have hq : q.name ∉ earlier.map Parameter.name := by simpa using hknown
      obtain ⟨p, hp, h₁⟩ := bind_eq_ok.mp h
      obtain ⟨added, rfl, hadded⟩ := ih hrest h₁
      -- the name that was put there is none of those that follow
      have hsame : ∀ r ∈ rest, r.name ∉ (earlier ++ [p]).map Parameter.name ↔
          r.name ∉ earlier.map Parameter.name := by
        intro r hr
        have hne : r.name ≠ q.name := fun heq => hfresh (heq ▸ List.mem_map_of_mem hr)
        simp [ofHost_ok hp, hne]
      refine ⟨p :: added, by simp, ?_⟩
      rw [List.filter_cons_of_pos (by simpa using hq)]
      rw [List.filter_congr fun r hr => decide_eq_decide.mpr (hsame r hr)] at hadded
      exact .cons hp hadded

/-! ### Types of parameters -/

/-- The server type of a bound value: a parameter has no list of members. -/
def NativeType.bound (native : NativeType) : NativeType :=
  if native = .enum ∨ native = .set then .varChar else native

/-- A parameter of a server type is declared as this type is, with the parameter's length. -/
theorem declaration_ofNative {name : String} {native : NativeType} {length : Option UInt32}
    {p : Parameter} (h : Parameter.ofNative name native length = .ok p) :
    p.name = name ∧ p.length = length ∧ p.direction = .input ∧ ∃ declaration,
      Declaration.write Registry.standard native.bound length = .ok declaration ∧
        p.declaration = .ok declaration := by
  obtain ⟨typeName, hlift, h₁⟩ := bind_eq_ok.mp h
  obtain rfl := pure_eq_ok.mp h₁
  have hname : Registry.standard.nameOf native.bound = .ok typeName := liftType_ok hlift
  obtain ⟨f, hf, unsigned, hnative⟩ := Declaration.declarable_of_nameOf hname
  rw [← hnative] at hname ⊢
  obtain rfl := Except.ok.inj ((Declaration.nameOf_member hf unsigned).symm.trans hname)
  -- the name alone is read as the type again: without a length it is no truth value
  obtain ⟨d, hread, -, ⟨-, hone, -⟩ | ⟨-, hmember⟩⟩ :=
    Declaration.exists_read_member hf unsigned none false
  · exact absurd hone (by simp)
  · have hwrite := Declaration.write_member hf unsigned length
    refine ⟨rfl, rfl, rfl, _, hwrite, ?_⟩
    rw [Parameter.declaration]
    dsimp only
    rw [hread, liftType, ok_bind, hmember.native, hwrite]
    rfl

theorem write_varChar (length : Option UInt32) :
    Declaration.write Registry.standard .varChar length =
      .ok (Declaration.spelling "varchar" (some (length.getD 255)) false) := by
  have hfamily : ∃ f ∈ Family.standard,
      f.name = "varchar" ∧ (f.member false).native = .varChar := by
    decide +kernel
  obtain ⟨f, hf, hname, hnative⟩ := hfamily
  have hwrite := Declaration.write_member hf false length
  rw [hnative, hname, Declaration.writtenLength_eq] at hwrite
  cases length <;> exact hwrite

/-- A type whose bound values are declared can be declared itself. -/
theorem NativeType.declarable_of_bound {native : NativeType} {length : Option UInt32}
    {declaration : String}
    (h : Declaration.write Registry.standard native.bound length = .ok declaration) :
    native.Declarable := by
  obtain ⟨name, hname, -⟩ := bind_eq_ok.mp h
  have hbound := declarable_iff.mp (Declaration.declarable_of_nameOf hname)
  rw [declarable_iff]
  rintro rfl
  exact hbound rfl

/-- A column is defined where its name is checked and its type is written. -/
theorem exists_ofField {f : Field} {native : NativeType} {declaration : String}
    (hnative : f.nativeType Registry.standard = .ok native)
    (hcolumn : f.checkedColumn = .ok f.columnName)
    (hwrite : Declaration.write Registry.standard native f.maxLength = .ok declaration) :
    ∃ definition, ColumnDefinition.ofField f = .ok definition ∧
      definition.declaration = declaration := by
  simp only [ColumnDefinition.ofField, hnative, hcolumn, hwrite, liftType, ok_bind]
  exact ⟨_, rfl, rfl⟩

/-- A parameter for the column of a field: it has the field's name and length, and is declared with
the type that the column is defined with. Members have no place in a parameter's type, so that
`enum` and `set` become `varchar`. -/
structure Field.BoundBy (f : Field) (p : Parameter) : Prop where
  name : p.name = f.property
  length : p.length = f.maxLength
  direction : p.direction = .input
  declared : ∃ native definition, f.nativeType Registry.standard = .ok native ∧
    ColumnDefinition.ofField f = .ok definition ∧
    p.declaration = .ok (if native = .enum ∨ native = .set then
      Declaration.spelling "varchar" (some (f.maxLength.getD 255)) false
      else definition.declaration)

theorem parameter_ofNative {f : Field} {p : Parameter} (h : f.parameter = .ok p) :
    ∃ native, f.nativeType Registry.standard = .ok native ∧
      Parameter.ofNative f.property native f.maxLength = .ok p := by
  obtain ⟨hreserved, hname, -⟩ := parameter_ok h
  rw [Field.parameter, hreserved, hname] at h
  obtain ⟨native, hnative, hp⟩ := bind_eq_ok.mp h
  exact ⟨native, liftType_ok hnative, hp⟩

theorem Field.boundBy_of_parameter {f : Field} {p : Parameter}
    (hcolumn : f.checkedColumn = .ok f.columnName) (h : f.parameter = .ok p) : f.BoundBy p := by
  obtain ⟨native, hnative, hp⟩ := parameter_ofNative h
  obtain ⟨hname, hlength, hdirection, declaration, hbound, hdeclared⟩ := declaration_ofNative hp
  obtain ⟨g, hg, unsigned, hmember⟩ := NativeType.declarable_of_bound hbound
  have hwrite := Declaration.write_member hg unsigned f.maxLength
  rw [hmember] at hwrite
  obtain ⟨definition, hdefinition, htype⟩ := exists_ofField hnative hcolumn hwrite
  refine ⟨hname, hlength, hdirection, native, definition, hnative, hdefinition, ?_⟩
  rw [hdeclared, htype]
  rw [NativeType.bound] at hbound
  split_ifs at hbound ⊢ with hmembers
  · exact congrArg Except.ok (Except.ok.inj (hbound.symm.trans (write_varChar _)))
  · exact congrArg Except.ok (Except.ok.inj (hbound.symm.trans hwrite))

/-! ### Lines of table definitions -/

/-- The beginning of a column's line: its name, its type, and whether it admits NULL. -/
def ColumnDefinition.head (d : ColumnDefinition) : String :=
  "\t`" ++ d.column ++ "` " ++ d.declaration ++ if d.nullable then " NULL" else " NOT NULL"

theorem ofField_eq {f : Field} {d : ColumnDefinition} (h : ColumnDefinition.ofField f = .ok d) :
    d.column = f.columnName ∧ d.nullable = f.host.nullable ∧
      ∃ native, Declaration.write Registry.standard native f.maxLength = .ok d.declaration := by
  obtain ⟨native, -, h₁⟩ := bind_eq_ok.mp h
  obtain ⟨column, hcolumn, h₂⟩ := bind_eq_ok.mp h₁
  obtain ⟨declaration, hwrite, h₃⟩ := bind_eq_ok.mp h₂
  obtain rfl := pure_eq_ok.mp h₃
  exact ⟨(checkedColumn_ok hcolumn).1, rfl, native, liftType_ok hwrite⟩

/-- The options behind it. -/
def ColumnDefinition.options (d : ColumnDefinition) : List Lexeme :=
  (if d.autoIncrement then [space, word "AUTO_INCREMENT"] else []) ++
    (if d.defaultsToNow then space :: words ["DEFAULT", "CURRENT_TIMESTAMP"] else [])

theorem toList_text_definition (d : ColumnDefinition) :
    '\t' :: (Lexeme.text d.lexemes).toList =
      d.head.toList ++ (Lexeme.text d.options).toList := by
  have hnull : Lexeme.text (space :: words (if d.nullable then ["NULL"] else ["NOT", "NULL"])) =
      if d.nullable then " NULL" else " NOT NULL" := by
    cases d.nullable <;> rfl
  have hlexemes : d.lexemes = [.name d.column, space, word d.declaration] ++
      (space :: words (if d.nullable then ["NULL"] else ["NOT", "NULL"])) ++ d.options := by
    simp [ColumnDefinition.lexemes, ColumnDefinition.options]
  rw [hlexemes, Lexeme.text_append, Lexeme.text_append, hnull, ColumnDefinition.head]
  simp [Lexeme.toList_text_cons, Lexeme.spell, space]

theorem newline_notMem_of_admits {kind : NameKind} (notVariable : kind ≠ .var) {name : String}
    (h : kind.admits name = true) : '\n' ∉ name.toList := fun hmem =>
  absurd (isIdentifierChar_of_admits notVariable h '\n' hmem) (by decide)

/-- A column is defined on one line. -/
theorem newline_notMem_definition {f : Field} {d : ColumnDefinition}
    (h : ColumnDefinition.ofField f = .ok d) : '\n' ∉ (Lexeme.text d.lexemes).toList := by
  obtain ⟨-, hadmits, -⟩ := contained_definition h
  obtain ⟨-, -, native, hwrite⟩ := ofField_eq h
  have hname : '\n' ∉ d.column.toList := newline_notMem_of_admits (by decide) hadmits
  have htype : '\n' ∉ d.declaration.toList := by
    have hall := all_write (p := fun c => c != '\n') (by decide +kernel)
      (fun c hc => by simpa using fun heq => absurd (heq ▸ hc) (by decide)) (by decide) hwrite
    exact fun hmem => absurd (List.all_eq_true.mp hall '\n' hmem) (by decide)
  have hnull : '\n' ∉ (if d.nullable then " NULL" else " NOT NULL").toList := by
    cases d.nullable <;> decide
  have hoptions : '\n' ∉ (Lexeme.text d.options).toList := by
    rw [ColumnDefinition.options]
    cases d.autoIncrement <;> cases d.defaultsToNow <;> decide
  have hhead : '\n' ∉ d.head.toList := by
    simp [ColumnDefinition.head, hname, htype, hnull]
  intro hmem
  have hall := List.mem_cons_of_mem '\t' hmem
  rw [toList_text_definition, List.mem_append] at hall
  exact hall.elim hhead hoptions

theorem toList_text_commaLines_cons (first : List Lexeme) {rest : List (List Lexeme)}
    (h : rest ≠ []) :
    (Lexeme.text (Lexeme.commaLines (first :: rest))).toList =
      (Lexeme.text first).toList ++ ',' :: '\n' :: '\t' ::
        (Lexeme.text (Lexeme.commaLines rest)).toList := by
  obtain ⟨second, rest, rfl⟩ := List.exists_cons_of_ne_nil h
  rw [Lexeme.commaLines, Lexeme.joined_cons_cons]
  simp [Lexeme.text_append, Lexeme.toList_text_cons, Lexeme.spell, Lexeme.commaLines]

theorem exists_first_line {ls : List Lexeme} (hls : '\n' ∉ (Lexeme.text ls).toList)
    (back : List (List Lexeme)) (rest : List Char) :
    ∃ more, (Text.splitAt '\n' ('\t' ::
        ((Lexeme.text (Lexeme.commaLines (ls :: back))).toList ++ '\n' :: rest)))[0]? =
      some ('\t' :: (Lexeme.text ls).toList ++ more) := by
  have hline : ∀ comma, '\n' ∉ comma → ∀ behind, (Text.splitAt '\n' ('\t' ::
      ((Lexeme.text ls).toList ++ comma) ++ '\n' :: behind))[0]? =
        some ('\t' :: (Lexeme.text ls).toList ++ comma) := by
    intro comma hcomma behind
    rw [Text.splitAt_append (by simp [hls, hcomma])]
    rfl
  cases back with
  | nil => exact ⟨[], by simpa [Lexeme.commaLines, Lexeme.joined] using hline [] (by simp) rest⟩
  | cons second back =>
    rw [toList_text_commaLines_cons _ (by simp)]
    exact ⟨[','], by simpa using hline [','] (by decide) _⟩

/-- Of parts with a comma and a new line between each two, those that are written on one line stand
on the lines of their places. -/
theorem exists_line {parts : List (List Lexeme)}
    (single : ∀ ls ∈ parts, '\n' ∉ (Lexeme.text ls).toList) (behind : List (List Lexeme))
    (rest : List Char) {k : Nat} {ls : List Lexeme} (h : parts[k]? = some ls) :
    ∃ more, (Text.splitAt '\n' ('\t' ::
        ((Lexeme.text (Lexeme.commaLines (parts ++ behind))).toList ++ '\n' :: rest)))[k]? =
      some ('\t' :: (Lexeme.text ls).toList ++ more) := by
  induction parts generalizing k with
  | nil => simp at h
  | cons first parts ih =>
    obtain ⟨hfirst, hparts⟩ := List.forall_mem_cons.mp single
    cases k with
    | zero =>
      obtain rfl : first = ls := by simpa using h
      exact exists_first_line hfirst _ rest
    | succ k =>
      have hk : parts[k]? = some ls := by simpa using h
      have hne : parts ++ behind ≠ [] :=
        List.append_ne_nil_of_left_ne_nil (List.ne_nil_of_mem (List.mem_of_getElem? hk)) _
      have hline : '\n' ∉ '\t' :: (Lexeme.text first).toList ++ [','] := by simp [hfirst]
      have hsplit := Text.splitAt_append hline
      obtain ⟨more, hmore⟩ := ih hparts hk
      rw [List.cons_append, toList_text_commaLines_cons _ hne]
      simp only [List.cons_append, List.append_assoc, List.nil_append] at hsplit ⊢
      exact ⟨more, by rw [hsplit]; exact hmore⟩

theorem columns_ofModel {m : RowModel} {d : TableDefinition}
    (h : TableDefinition.ofModel m = .ok d) :
    List.Forall₂ (fun f column => ColumnDefinition.ofField f = .ok column) m.fields d.columns := by
  rw [TableDefinition.ofModel] at h
  split_ifs at h
  · exact absurd h throw_bind_ne_ok
  · obtain ⟨columns, hcolumns, h₁⟩ := bind_eq_ok.mp h
    obtain ⟨primary, -, h₂⟩ := bind_eq_ok.mp h₁
    obtain ⟨unique, -, h₃⟩ := bind_eq_ok.mp h₂
    obtain rfl := pure_eq_ok.mp h₃
    exact mapM_eq_ok.mp hcolumns

/-- The lexemes of the first line of a table definition. -/
def createTableFront (database table : String) : List Lexeme :=
  words ["CREATE", "TABLE"] ++ [space] ++ Lexeme.qualified database table ++ [space, mark "("]

theorem newline_notMem_createTableFront {c : Compiler} {table : String}
    (h : NameKind.table.admits table = true) :
    '\n' ∉ (Lexeme.text (createTableFront c.database table)).toList := by
  simp [createTableFront, Lexeme.qualified, Lexeme.toList_text_cons, Lexeme.spell, words, space,
    newline_notMem_of_admits (by decide) c.valid, newline_notMem_of_admits (by decide) h]

theorem toList_createTable (database table : String) (d : TableDefinition) :
    (Lexeme.text (createTableBody (Lexeme.qualified database table) d ++ [mark ";"])).toList =
      (Lexeme.text (createTableFront database table)).toList ++ '\n' :: '\t' ::
        ((Lexeme.text d.lexemes).toList ++ '\n' :: [')', ';']) := by
  simp [createTableFront, createTableBody, Lexeme.text_append, Lexeme.toList_text_cons,
    Lexeme.spell, words, space]

/-- The column of the field at a place is defined on the line of this place, behind the first
line. -/
theorem exists_line_createTable {c : Compiler} {m : RowModel} {s : Statement}
    (h : c.createTable m = .ok s) {k : Nat} {f : Field} (hf : m.fields[k]? = some f) :
    ∃ d more, ColumnDefinition.ofField f = .ok d ∧
      (Text.splitAt '\n' s.text.toList)[k + 1]? = some (d.head.toList ++ more) := by
  obtain ⟨definition, table, hdefinition, htable, rfl⟩ := Compiler.createTable_ok h
  obtain ⟨hadmits, rfl⟩ := tableLexemes_ok htable
  have hcolumns := columns_ofModel hdefinition
  have hsingle : ∀ ls ∈ definition.columns.map ColumnDefinition.lexemes,
      '\n' ∉ (Lexeme.text ls).toList := by
    intro ls hls
    obtain ⟨column, hcolumn, rfl⟩ := List.mem_map.mp hls
    obtain ⟨f, -, hofField⟩ := exists_mem_of_forall₂ hcolumns hcolumn
    exact newline_notMem_definition hofField
  obtain ⟨d, hd, hofField⟩ := exists_getElem?_of_forall₂ hcolumns hf
  obtain ⟨more, hmore⟩ := exists_line hsingle (definition.keys.map KeyDefinition.lexemes)
    [')', ';'] (List.getElem?_map .. |>.trans (congrArg _ hd))
  refine ⟨d, (Lexeme.text d.options).toList ++ more, hofField, ?_⟩
  show (Text.splitAt '\n' (Lexeme.text (_ ++ [mark ";"])).toList)[k + 1]? = _
  rw [toList_createTable, Text.splitAt_append (newline_notMem_createTableFront hadmits),
    List.getElem?_cons_succ, ← List.append_assoc, ← toList_text_definition]
  exact hmore

/-! ### What is written -/

namespace Compiler

variable {c : Compiler} {m : RowModel} {s : Statement}

theorem boundBy_assignments {fields : List Field} {written : List Assignment}
    {parameters : List Parameter} (h : assignments fields = .ok (written, parameters)) :
    List.Forall₂ Field.BoundBy (fields.filter fun f => !f.isStamped) parameters :=
  (assignments_exact h).2.2.imp fun _ _ hf => Field.boundBy_of_parameter hf.1 hf.2

/-- An insert names the columns of the fields that the server does not number, and has the value of
each at the same place. -/
theorem insert_exact (h : c.insert m = .ok s) :
    RowInsert.ofText s.text = some ⟨c.database, m.table, m.insertedFields.map Field.columnName,
        m.insertedFields.map Field.written⟩ ∧
      List.Forall₂ Field.BoundBy (m.insertedFields.filter fun f => !f.isStamped) s.parameters := by
  obtain ⟨table, written, parameters, htable, hwritten, rfl⟩ := insert_ok h
  have hchecked := checked_assignment hwritten
  have hread := RowInsert.ofText_insert htable (fun a ha => (hchecked a ha).1)
    (fun a ha => (hchecked a ha).2) parameters
  refine ⟨hread.trans ?_, boundBy_assignments hwritten⟩
  rw [(assignments_exact hwritten).1, List.map_map, List.map_map]
  rfl

/-- An update assigns the columns of the fields that are not immutable, and the parameters of its
filter are put behind theirs. -/
theorem update_exact {filter : Filter} (hf : filter.Accepted) (h : c.update m filter = .ok s) :
    RowUpdate.ofText s.text = some ⟨c.database, m.table, m.updatedFields.map Field.assignment⟩ ∧
      ∃ own added, s.parameters = own ++ added ∧
        List.Forall₂ Field.BoundBy (m.updatedFields.filter fun f => !f.isStamped) own ∧
        List.Forall₂ (fun q p => Parameter.ofHost q.name q.host none = .ok p)
          (filter.params.filter fun q => q.name ∉ own.map Parameter.name) added := by
  have hfields := updatedFields_ne_nil h
  obtain ⟨table, written, own, condition, parameters, htable, hwritten, hcondition, hadded, rfl⟩ :=
    update_ok h
  have hchecked := checked_assignment hwritten
  obtain ⟨added, rfl, hfilter⟩ := addFilterParams_exact hf.nodup hadded
  have hexact := (assignments_exact hwritten).1
  have nonempty : written ≠ [] := by simpa [hexact] using hfields
  have hread := RowUpdate.ofText_update htable nonempty (fun a ha => (hchecked a ha).1)
    (fun a ha => (hchecked a ha).2) hf hcondition (own ++ added)
  exact ⟨hexact ▸ hread, own, added, rfl, boundBy_assignments hwritten, hfilter⟩

/-- An insert names the columns of the fields that the server does not number and the values for
them, both in the order of the fields; an update assigns the columns of the fields that are not
immutable, with the same values. The parameters are those of the written fields that are not
stamped, in order, and behind them those of the update's filter that are not there already. Each is
declared with the type that its column has where the table is created, except that `enum` and `set`
are `varchar`. -/
theorem writes_fields (c : Compiler) (m : RowModel) :
    (∀ s, c.insert m = .ok s →
      let fields := m.fields.filter fun f => !f.autoIncrement
      RowInsert.ofText s.text =
          some ⟨c.database, m.table, fields.map Field.columnName, fields.map Field.written⟩ ∧
        List.Forall₂ Field.BoundBy (fields.filter fun f => !f.isStamped) s.parameters) ∧
    (∀ filter s, Filter.Accepted filter → c.update m filter = .ok s →
      let fields := m.fields.filter fun f => !f.immutable
      RowUpdate.ofText s.text = some ⟨c.database, m.table, fields.map Field.assignment⟩ ∧
        ∃ own added, s.parameters = own ++ added ∧
          List.Forall₂ Field.BoundBy (fields.filter fun f => !f.isStamped) own ∧
          List.Forall₂ (fun q p => Parameter.ofHost q.name q.host none = .ok p)
            (filter.params.filter fun q => q.name ∉ own.map Parameter.name) added) ∧
    ∀ (c' : Compiler) s, c'.createTable m = .ok s → ∀ k f, m.fields[k]? = some f →
      ∃ d more, ColumnDefinition.ofField f = .ok d ∧
        d.column = f.columnName ∧ d.nullable = f.host.nullable ∧
        (Text.splitAt '\n' s.text.toList)[k + 1]? = some (d.head.toList ++ more) := by
  refine ⟨fun s h => insert_exact h, fun filter s hf h => update_exact hf h, ?_⟩
  intro c' s h k f hk
  obtain ⟨d, more, hofField, hline⟩ := exists_line_createTable h hk
  obtain ⟨hcolumn, hnullable, -⟩ := ofField_eq hofField
  exact ⟨d, more, hofField, hcolumn, hnullable, hline⟩

/-- The rows of numbered orders, with a state, the time at which they were made, and the time at
which they were last written. -/
def orders : RowModel :=
  ⟨"Order", "orders", [
    { property := "Id", host := ⟨.i64, false⟩, key := .primary, autoIncrement := true,
      immutable := true },
    { property := "State", host := ⟨.string, false⟩, native := some .enum, maxLength := some 12 },
    { property := "Placed", host := ⟨.dateTime, false⟩, immutable := true, created := true },
    { property := "Note", host := ⟨.string, true⟩ },
    { property := "Seen", host := ⟨.dateTime, false⟩, updated := true }]⟩

/-- The time at which an order was made is inserted and never written again, and the number that the
filter asks for stands behind the values that are written. The state is an `enum`. -/
theorem writes_fields_orders :
    (∃ s, insert ⟨"shop", by decide⟩ orders = .ok s ∧
      RowInsert.ofText s.text = some ⟨"shop", "orders", ["STATE", "PLACED", "NOTE", "SEEN"],
        [.bound "State", .stamp, .bound "Note", .stamp]⟩ ∧
      ∃ state note, s.parameters = [state, note] ∧ state.declaration = .ok "varchar(12)" ∧
        note.declaration = .ok "varbinary(255)") ∧
    (∃ s, update ⟨"shop", by decide⟩ orders
        ⟨.compare .eq (.field "Id") (.param "Id"), [⟨"Id", ⟨.i64, false⟩⟩]⟩ = .ok s ∧
      RowUpdate.ofText s.text = some ⟨"shop", "orders",
        [⟨"STATE", .bound "State"⟩, ⟨"NOTE", .bound "Note"⟩, ⟨"SEEN", .stamp⟩]⟩ ∧
      s.parameters.map Parameter.name = ["State", "Note", "Id"]) ∧
    ∃ s, createTable ⟨"shop", by decide⟩ orders = .ok s ∧ ∃ more,
      (Text.splitAt '\n' s.text.toList)[2]? =
        some ("\t`STATE` enum(12) NOT NULL".toList ++ more) := by
  have hinsert : insert ⟨"shop", by decide⟩ orders = .ok
      ⟨"INSERT INTO `shop`.`orders` (\n\t`STATE`,\n\t`PLACED`,\n\t`NOTE`,\n\t`SEEN`\n) VALUES (" ++
        "\n\t@State,\n\tUTC_TIMESTAMP(),\n\t@Note,\n\tUTC_TIMESTAMP()\n);",
        [⟨"State", "varchar", some 12, .input⟩, ⟨"Note", "varbinary", none, .input⟩]⟩ := by
    decide +kernel
  have hparse : Filter.parse "row => row.Id == Id" [⟨"Id", ⟨.i64, false⟩⟩] =
      .ok ⟨.compare .eq (.field "Id") (.param "Id"), [⟨"Id", ⟨.i64, false⟩⟩]⟩ := rfl
  have hupdate : update ⟨"shop", by decide⟩ orders
      ⟨.compare .eq (.field "Id") (.param "Id"), [⟨"Id", ⟨.i64, false⟩⟩]⟩ = .ok
        ⟨"UPDATE `shop`.`orders` SET\n\t`STATE` = @State,\n\t`NOTE` = @Note,\n\t`SEEN` = " ++
          "UTC_TIMESTAMP()\nWHERE (`ID` = @Id);", [⟨"State", "varchar", some 12, .input⟩,
            ⟨"Note", "varbinary", none, .input⟩, ⟨"Id", "bigint", none, .input⟩]⟩ := by
    decide +kernel
  have hcreate : ∃ s, createTable ⟨"shop", by decide⟩ orders = .ok s :=
    exists_eq_ok_of_isOk (by decide +kernel)
  obtain ⟨hinserted, hupdated, hcreated⟩ := writes_fields ⟨"shop", by decide⟩ orders
  obtain ⟨hinsertText, hbound⟩ := hinserted _ hinsert
  obtain ⟨hupdateText, -⟩ := hupdated _ _ (.parse hparse) hupdate
  have hstate : (⟨"State", "varchar", some 12, .input⟩ : Parameter).declaration =
      .ok "varchar(12)" := by
    obtain ⟨native, _, hnative, -, hdeclared⟩ :=
      (hbound.get (i := 0) (by decide) (by decide)).declared
    obtain rfl : NativeType.enum = native := Except.ok.inj hnative
    exact hdeclared
  have hnote : (⟨"Note", "varbinary", none, .input⟩ : Parameter).declaration =
      .ok "varbinary(255)" := by
    obtain ⟨native, definition, hnative, hdefinition, hdeclared⟩ :=
      (hbound.get (i := 1) (by decide) (by decide)).declared
    obtain rfl : NativeType.varBinary = native := Except.ok.inj hnative
    have hofField : ColumnDefinition.ofField orders.fields[3] =
        .ok ⟨"NOTE", "varbinary(255)", true, false, false⟩ := by decide +kernel
    obtain rfl := Except.ok.inj (hofField.symm.trans hdefinition)
    exact hdeclared
  obtain ⟨s, hs⟩ := hcreate
  obtain ⟨d, more, hdefinition, -, -, hline⟩ := hcreated _ s hs 1 _ rfl
  have hofField : ColumnDefinition.ofField orders.fields[1] =
      .ok ⟨"STATE", "enum(12)", false, false, false⟩ := by decide +kernel
  obtain rfl := Except.ok.inj (hofField.symm.trans hdefinition)
  exact ⟨⟨_, hinsert, hinsertText, _, _, rfl, hstate, hnote⟩, ⟨_, hupdate, hupdateText, rfl⟩, s, hs,
    more, hline⟩

end Compiler

end TypedSql
