/-
Reading statements that define tables.

A definition of a table is read line by line: the first line names the table, and each line that
begins with a name in backticks defines a column, by what stands behind the name. A column that is
added is read between the backticks of its statement: the table, the name and the definition of the
column, and the place that it takes.

* `WrittenTable.ofText_createTable` — the text that creates a table is read as the columns of its
  model;
* `AddedColumn.ofText_addColumn` — the text that adds a column is read as this column and its place.
-/
import TypedSql.Proofs.Alphabet
import TypedSql.Proofs.WrittenColumns

namespace TypedSql

open Lexeme (word mark blank space words)

/-! ### The readers -/

/-- A column of a table: its name, and the text of its definition. -/
structure TableColumn where
  name : String
  definition : String
  deriving DecidableEq, Repr

/-- A table and its columns, in order. -/
structure WrittenTable where
  database : String
  name : String
  columns : List TableColumn
  deriving DecidableEq, Repr

/-- The column that a line defines, if it begins with a name. A comma at its end is no part of the
definition. -/
def TableColumn.ofLine : List Char → Option TableColumn
  | '\t' :: '\x60' :: rest =>
    match Text.splitAt '\x60' rest with
    | [name, ' ' :: definition] =>
      some ⟨.ofList name, .ofList (definition.rdropWhile (· = ','))⟩
    | _ => none
  | _ => none

/-- The table that a text creates. -/
def WrittenTable.ofText (text : String) : Option WrittenTable :=
  match Text.splitAt '\n' text.toList with
  | [] => none
  | first :: lines =>
    match Text.splitAt '\x60' first with
    | [front, database, point, name, opening] =>
      if front = "CREATE TABLE ".toList ∧ point = ['.'] ∧ opening = " (".toList then
        some ⟨.ofList database, .ofList name, lines.filterMap TableColumn.ofLine⟩
      else none
    | _ => none

/-- A column that is added to a table, at a place. -/
structure AddedColumn where
  database : String
  table : String
  column : TableColumn
  position : ColumnPosition
  deriving DecidableEq, Repr

namespace AddedColumn

/-- What stands between a space and an ending. -/
def definitionBefore (ending : String) : List Char → Option String
  | ' ' :: rest => (rest.dropSuffix? ending.toList).map .ofList
  | _ => none

/-- The definition behind a column's name, and the place. -/
def placed : List (List Char) → Option (String × ColumnPosition)
  | [behind] => (definitionBefore " FIRST;" behind).map fun definition => (definition, .first)
  | [behind, column, [';']] =>
    (definitionBefore " AFTER " behind).map fun definition =>
      (definition, .after (.ofList column))
  | _ => none

/-- The column that a text adds. -/
def ofText (text : String) : Option AddedColumn :=
  match Text.splitAt '\x60' text.toList with
  | front :: database :: point :: table :: action :: name :: behind =>
    if front = "ALTER TABLE ".toList ∧ point = ['.'] ∧ action = "\n\tADD COLUMN ".toList then
      (placed behind).map fun (definition, position) =>
        ⟨.ofList database, .ofList table, ⟨.ofList name, definition⟩, position⟩
    else none
  | _ => none

end AddedColumn

/-! ### Definitions of columns -/

namespace ColumnDefinition

/-- What stands behind the type in the definition of a column. -/
def tail (d : ColumnDefinition) : String :=
  (if d.nullable then " NULL" else " NOT NULL") ++ Lexeme.text d.options

/-- The column of a table that has this definition. -/
def inTable (d : ColumnDefinition) : TableColumn :=
  ⟨d.column, d.declaration ++ d.tail⟩

theorem toList_lexemes (d : ColumnDefinition) : (Lexeme.text d.lexemes).toList =
    '\x60' :: (d.column.toList ++ '\x60' :: ' ' :: d.inTable.definition.toList) := by
  have h := toList_text_definition d
  rw [head] at h
  have htab : '\t' :: (Lexeme.text d.lexemes).toList =
      '\t' :: '\x60' :: (d.column.toList ++ '\x60' :: ' ' :: d.inTable.definition.toList) := by
    simpa [inTable, tail] using h
  exact (List.cons.inj htab).2

/-- Neither a backtick nor a comma is in a definition, and so nothing that would end it. -/
theorem notMem_definition {f : Field} {d : ColumnDefinition} (h : ofField f = .ok d) :
    '\x60' ∉ d.inTable.definition.toList ∧ ',' ∉ d.inTable.definition.toList := by
  obtain ⟨-, -, native, hwrite⟩ := ofField_eq h
  have hchars : ∀ c ∈ d.declaration.toList, c ≠ '\x60' ∧ c ≠ ',' := by
    have hall := all_write (p := fun c => c != '\x60' && c != ',') (by decide +kernel)
      (fun c hc => ?_) (by decide) hwrite
    · simpa using hall
    · have hne : ∀ {e : Char}, Text.isIdentifierChar e = false → c ≠ e :=
        Condition.isIdentifierChar_ne (Text.isIdentifierChar_of_isDigit hc)
      simp [hne (e := '\x60') (by decide), hne (e := ',') (by decide)]
  have htail : '\x60' ∉ d.tail.toList ∧ ',' ∉ d.tail.toList := by
    rw [tail, options]
    cases d.nullable <;> cases d.autoIncrement <;> cases d.defaultsToNow <;> decide
  constructor
  · intro hmem
    rw [inTable, String.toList_append, List.mem_append] at hmem
    exact hmem.elim (fun hmem => (hchars _ hmem).1 rfl) htail.1
  · intro hmem
    rw [inTable, String.toList_append, List.mem_append] at hmem
    exact hmem.elim (fun hmem => (hchars _ hmem).2 rfl) htail.2

end ColumnDefinition

theorem backtick_notMem_of_admits {kind : NameKind} (notVariable : kind ≠ .var) {name : String}
    (h : kind.admits name = true) : '\x60' ∉ name.toList := fun hmem =>
  absurd (isIdentifierChar_of_admits notVariable h _ hmem) (by decide)

/-! ### Lines of a definition -/

/-- The line of a column is read as this column, with a comma at its end or without. -/
theorem TableColumn.ofLine_definition {f : Field} {d : ColumnDefinition}
    (h : ColumnDefinition.ofField f = .ok d) {comma : List Char}
    (hcomma : comma = [] ∨ comma = [',']) :
    ofLine ('\t' :: ((Lexeme.text d.lexemes).toList ++ comma)) = some d.inTable := by
  obtain ⟨-, hadmits, -⟩ := contained_definition h
  obtain ⟨hbacktick, hfree⟩ := ColumnDefinition.notMem_definition h
  have hbehind : '\x60' ∉ ' ' :: (d.inTable.definition.toList ++ comma) := by
    obtain rfl | rfl := hcomma <;> simp [hbacktick]
  have hsplit : Text.splitAt '\x60' (d.column.toList ++
      '\x60' :: ' ' :: (d.inTable.definition.toList ++ comma)) =
        [d.column.toList, ' ' :: (d.inTable.definition.toList ++ comma)] := by
    rw [Text.splitAt_append (backtick_notMem_of_admits (by decide) hadmits),
      Text.splitAt_of_notMem hbehind]
  have hdrop : (d.inTable.definition.toList ++ comma).rdropWhile (· = ',') =
      d.inTable.definition.toList := by
    have hself : d.inTable.definition.toList.rdropWhile (· = ',') =
        d.inTable.definition.toList := by
      rw [List.rdropWhile_eq_self_iff]
      intro hne hlast
      exact hfree (of_decide_eq_true hlast ▸ List.getLast_mem hne)
    obtain rfl | rfl := hcomma
    · rw [List.append_nil, hself]
    · rw [List.rdropWhile_concat_pos _ _ _ (by simp), hself]
  rw [d.toList_lexemes]
  simp only [List.cons_append, List.append_assoc, ofLine, hsplit, hdrop, String.ofList_toList]
  rfl

/-- The line of a key begins with no name. -/
theorem TableColumn.ofLine_key (k : KeyDefinition) (comma : List Char) :
    ofLine ('\t' :: ((Lexeme.text k.lexemes).toList ++ comma)) = none := by
  cases k with
  | primary columns =>
    simp [KeyDefinition.lexemes, words, Lexeme.toList_text_cons, Lexeme.spell, ofLine]
  | unique index column =>
    simp [KeyDefinition.lexemes, words, Lexeme.toList_text_cons, Lexeme.spell, ofLine]

/-- A key is defined on one line. -/
theorem newline_notMem_key {k : KeyDefinition} (h : AllContained k.lexemes) :
    '\n' ∉ (Lexeme.text k.lexemes).toList := by
  refine h.notMem_newline ?_
  cases k with
  | primary columns =>
    have hcolumns : ∀ text,
        .blank text ∈ Lexeme.commaSeparated (columns.map fun c => [.name c]) → text = " " := by
      refine Lexeme.joined_induction (P := fun ls => ∀ text, .blank text ∈ ls → text = " ")
        (by simp) (fun hxs hys text hmem => ?_) fun ls hls text hmem => ?_
      · simp only [List.mem_append, List.mem_cons, List.not_mem_nil, or_false, reduceCtorEq,
          false_or, space, Lexeme.blank.injEq] at hmem
        obtain (hmem | rfl) | hmem := hmem
        · exact hxs text hmem
        · rfl
        · exact hys text hmem
      · obtain ⟨column, -, rfl⟩ := List.mem_map.mp hls
        simp at hmem
    intro text hmem
    simp only [KeyDefinition.lexemes, words, List.mem_append] at hmem
    obtain ((hmem | hmem) | hmem) | hmem := hmem
    · simpa [space] using hmem
    · simpa [space] using hmem
    · exact hcolumns text hmem
    · simp at hmem
  | unique index column => simp [KeyDefinition.lexemes, words, space]

/-- The line of a part is read as a column, or as none, with a comma at its end or without. -/
def ReadAs (ls : List Lexeme) (column : Option TableColumn) : Prop :=
  ∀ comma, comma = [] ∨ comma = [','] →
    TableColumn.ofLine ('\t' :: ((Lexeme.text ls).toList ++ comma)) = column

/-- Of parts with a comma and a new line between each two, each of which is written on one line, the
lines are read one by one. -/
theorem filterMap_ofLine {parts : List (List Lexeme)}
    {read : List Lexeme → Option TableColumn}
    (each : ∀ ls ∈ parts, '\n' ∉ (Lexeme.text ls).toList ∧ ReadAs ls (read ls))
    (rest : List Char) :
    (Text.splitAt '\n' ('\t' ::
        ((Lexeme.text (Lexeme.commaLines parts)).toList ++ '\n' :: rest))).filterMap
          TableColumn.ofLine =
      parts.filterMap read ++ (Text.splitAt '\n' rest).filterMap TableColumn.ofLine := by
  induction parts with
  | nil =>
    have hempty : '\n' ∉ ['\t'] := by decide
    show (Text.splitAt '\n' (['\t'] ++ '\n' :: rest)).filterMap TableColumn.ofLine = _
    rw [Text.splitAt_append hempty]
    rfl
  | cons first parts ih =>
    obtain ⟨⟨hline, hfirst⟩, hparts⟩ := List.forall_mem_cons.mp each
    have hcons : ∀ comma, comma = [] ∨ comma = [','] → ∀ behind,
        (Text.splitAt '\n' ('\t' :: ((Lexeme.text first).toList ++ comma) ++
          '\n' :: behind)).filterMap TableColumn.ofLine =
            (read first).toList ++ (Text.splitAt '\n' behind).filterMap TableColumn.ofLine := by
      intro comma hcomma behind
      have hfree : '\n' ∉ '\t' :: ((Lexeme.text first).toList ++ comma) := by
        obtain rfl | rfl := hcomma <;> simp [hline]
      rw [Text.splitAt_append hfree, List.filterMap_cons, hfirst comma hcomma]
      cases read first <;> rfl
    have hread : (first :: parts).filterMap read = (read first).toList ++ parts.filterMap read := by
      rw [List.filterMap_cons]
      cases read first <;> rfl
    by_cases hlast : parts = []
    · subst hlast
      have hone := hcons [] (.inl rfl) rest
      rw [List.append_nil] at hone
      rw [hread, List.filterMap_nil, List.append_nil, ← hone, Lexeme.commaLines,
        Lexeme.joined_singleton, List.cons_append]
    · have hmore := hcons [','] (.inr rfl)
        ('\t' :: ((Lexeme.text (Lexeme.commaLines parts)).toList ++ '\n' :: rest))
      rw [ih hparts, ← List.append_assoc, ← hread] at hmore
      rw [← hmore, toList_text_commaLines_cons first hlast]
      simp

/-! ### Creating a table -/

namespace TableDefinition

/-- The columns of a definition as they are in the table. -/
def inTable (d : TableDefinition) : List TableColumn :=
  d.columns.map ColumnDefinition.inTable

variable {m : RowModel} {d : TableDefinition}

/-- The lines of a definition are read as its columns. -/
theorem filterMap_lines (h : ofModel m = .ok d) (rest : List Char) :
    (Text.splitAt '\n' ('\t' :: ((Lexeme.text d.lexemes).toList ++ '\n' :: rest))).filterMap
      TableColumn.ofLine = d.inTable ++ (Text.splitAt '\n' rest).filterMap TableColumn.ofLine := by
  let read (ls : List Lexeme) : Option TableColumn :=
    TableColumn.ofLine ('\t' :: ((Lexeme.text ls).toList ++ []))
  have hread : ∀ {ls : List Lexeme} {column : Option TableColumn}, ReadAs ls column →
      read ls = column := fun hls => hls [] (.inl rfl)
  have hcolumns : ∀ column ∈ d.columns, '\n' ∉ (Lexeme.text column.lexemes).toList ∧
      ReadAs column.lexemes (some column.inTable) := by
    intro column hcolumn
    obtain ⟨f, -, hf⟩ := exists_mem_of_forall₂ (columns_ofModel h) hcolumn
    exact ⟨newline_notMem_definition hf, fun _ => TableColumn.ofLine_definition hf⟩
  have hkeys : ∀ key ∈ d.keys, '\n' ∉ (Lexeme.text key.lexemes).toList ∧
      ReadAs key.lexemes none := by
    intro key hkey
    have hpart : key.lexemes <:+: d.lexemes :=
      Lexeme.infix_joined (List.mem_append_right _ (List.mem_map_of_mem hkey))
    have hcontained : AllContained key.lexemes := fun l hl =>
      contained_tableDefinition h l (hpart.subset hl)
    exact ⟨newline_notMem_key hcontained, fun comma _ => TableColumn.ofLine_key key comma⟩
  have heach : ∀ ls ∈ d.columns.map ColumnDefinition.lexemes ++ d.keys.map KeyDefinition.lexemes,
      '\n' ∉ (Lexeme.text ls).toList ∧ ReadAs ls (read ls) := by
    intro ls hls
    obtain hls | hls := List.mem_append.mp hls
    · obtain ⟨column, hcolumn, rfl⟩ := List.mem_map.mp hls
      obtain ⟨hline, hreads⟩ := hcolumns column hcolumn
      exact ⟨hline, hread hreads ▸ hreads⟩
    · obtain ⟨key, hkey, rfl⟩ := List.mem_map.mp hls
      obtain ⟨hline, hreads⟩ := hkeys key hkey
      exact ⟨hline, hread hreads ▸ hreads⟩
  have hall : (d.columns.map ColumnDefinition.lexemes ++
      d.keys.map KeyDefinition.lexemes).filterMap read = d.inTable := by
    have hfirst : d.columns.filterMap (read ∘ ColumnDefinition.lexemes) = d.inTable := by
      rw [inTable, ← List.filterMap_eq_map]
      exact List.filterMap_congr fun column hcolumn => hread (hcolumns column hcolumn).2
    have hsecond : d.keys.filterMap (read ∘ KeyDefinition.lexemes) = [] :=
      List.filterMap_eq_nil_iff.mpr fun key hkey => hread (hkeys key hkey).2
    rw [List.filterMap_append, List.filterMap_map, List.filterMap_map, hfirst, hsecond,
      List.append_nil]
  rw [← hall]
  exact filterMap_ofLine heach rest

end TableDefinition

/-- Names of a database and of a table between backticks. -/
theorem splitAt_qualified {c : Compiler} {table : String} (h : NameKind.table.admits table = true)
    {front : List Char} (hfront : '\x60' ∉ front) (rest : List Char) :
    Text.splitAt '\x60'
        (front ++ ((Lexeme.text (Lexeme.qualified c.database table)).toList ++ rest)) =
      front :: c.database.toList :: ['.'] :: table.toList :: Text.splitAt '\x60' rest := by
  have htext : (Lexeme.text (Lexeme.qualified c.database table)).toList ++ rest =
      '\x60' :: (c.database.toList ++ '\x60' :: (['.'] ++ '\x60' :: (table.toList ++
        '\x60' :: rest))) := by
    simp [Lexeme.qualified, Lexeme.toList_text_cons, Lexeme.spell]
  have hpoint : '\x60' ∉ ['.'] := by decide
  rw [htext, Text.splitAt_append hfront,
    Text.splitAt_append (backtick_notMem_of_admits (by decide) c.valid),
    Text.splitAt_append hpoint, Text.splitAt_append (backtick_notMem_of_admits (by decide) h)]

/-- The text that creates a table is read as the columns of its definition. -/
theorem WrittenTable.ofText_createTable {c : Compiler} {m : RowModel} {s : Statement}
    (h : c.createTable m = .ok s) : ∃ d, TableDefinition.ofModel m = .ok d ∧
      WrittenTable.ofText s.text = some ⟨c.database, m.table, d.inTable⟩ := by
  obtain ⟨d, table, hd, htable, rfl⟩ := Compiler.createTable_ok h
  obtain ⟨hadmits, rfl⟩ := tableLexemes_ok htable
  have hlines : (Text.splitAt '\n' ('\t' :: ((Lexeme.text d.lexemes).toList ++
      '\n' :: [')', ';']))).filterMap TableColumn.ofLine = d.inTable :=
    (TableDefinition.filterMap_lines hd _).trans (List.append_nil _)
  have hfront : (Lexeme.text (createTableFront c.database m.table)).toList =
      "CREATE TABLE ".toList ++ ((Lexeme.text (Lexeme.qualified c.database m.table)).toList ++
        " (".toList) := by
    simp [createTableFront, Lexeme.text_append, Lexeme.toList_text_cons, Lexeme.spell, words, space]
  have hopening : '\x60' ∉ " (".toList := by decide
  refine ⟨d, hd, ?_⟩
  rw [WrittenTable.ofText, Statement.text_ofBody, toList_createTable,
    Text.splitAt_append (newline_notMem_createTableFront hadmits)]
  dsimp only
  rw [hfront, splitAt_qualified hadmits (by decide), Text.splitAt_of_notMem hopening]
  dsimp only
  rw [if_pos ⟨rfl, rfl, rfl⟩, hlines, String.ofList_toList, String.ofList_toList]

/-! ### Adding a column -/

theorem admits_of_after {m : RowModel} {index : Nat} {column : String}
    (h : ColumnPosition.ofIndex m index = .ok (.after column)) :
    NameKind.column.admits column = true := by
  rw [ColumnPosition.ofIndex.eq_def] at h
  split at h
  · cases h
  · split at h
    · obtain ⟨checked, hchecked, hafter⟩ := bind_eq_ok.mp h
      obtain rfl := ColumnPosition.after.inj (pure_eq_ok.mp hafter)
      exact (checkedColumn_ok hchecked).2
    · cases h

namespace AddedColumn

theorem definitionBefore_append (definition : String) (ending : String) :
    definitionBefore ending (' ' :: (definition.toList ++ ending.toList)) = some definition := by
  have hdrop : (definition.toList ++ ending.toList).dropSuffix? ending.toList =
      some definition.toList :=
    List.dropSuffix?_eq_some_iff.mpr ⟨ending.toList, rfl, beq_self_eq_true _⟩
  rw [definitionBefore, hdrop, Option.map_some, String.ofList_toList]

/-- The place of a column stands behind its definition. -/
theorem placed_position {definition : String} (hdefinition : '\x60' ∉ definition.toList)
    {position : ColumnPosition}
    (hposition : ∀ column, position = .after column → '\x60' ∉ column.toList) :
    placed (Text.splitAt '\x60' (' ' :: (definition.toList ++ ' ' ::
      ((Lexeme.text position.lexemes).toList ++ [';'])))) = some (definition, position) := by
  cases position with
  | first =>
    have hfree : '\x60' ∉ ' ' :: (definition.toList ++ " FIRST;".toList) := by simp [hdefinition]
    show placed (Text.splitAt '\x60' (' ' :: (definition.toList ++ " FIRST;".toList))) = _
    rw [Text.splitAt_of_notMem hfree, placed, definitionBefore_append]
    rfl
  | after column =>
    have hcolumn := hposition column rfl
    have hfree : '\x60' ∉ ' ' :: (definition.toList ++ " AFTER ".toList) := by simp [hdefinition]
    have htext : ' ' :: (definition.toList ++ ' ' ::
        ((Lexeme.text (ColumnPosition.after column).lexemes).toList ++ [';'])) =
          ' ' :: (definition.toList ++ " AFTER ".toList) ++
            '\x60' :: (column.toList ++ '\x60' :: [';']) := by
      simp [ColumnPosition.lexemes, Lexeme.toList_text_cons, Lexeme.spell, space]
    have hend : '\x60' ∉ [';'] := by decide
    rw [htext, Text.splitAt_append hfree, Text.splitAt_append hcolumn, Text.splitAt_of_notMem hend,
      placed, definitionBefore_append, Option.map_some, String.ofList_toList]

/-- The text that adds a column is read as this column and its place. -/
theorem ofText_addColumn {c : Compiler} {m : RowModel} {table : List Lexeme}
    (htable : c.tableLexemes m = .ok table) {f : Field} {d : ColumnDefinition}
    (hd : ColumnDefinition.ofField f = .ok d) {index : Nat} {position : ColumnPosition}
    (hposition : ColumnPosition.ofIndex m index = .ok position) :
    ofText (Statement.ofBody (addColumnBody table d position) []).text =
      some ⟨c.database, m.table, d.inTable, position⟩ := by
  obtain ⟨hadmits, rfl⟩ := tableLexemes_ok htable
  obtain ⟨-, hcolumn, -⟩ := contained_definition hd
  obtain ⟨hdefinition, -⟩ := ColumnDefinition.notMem_definition hd
  have hplace : ∀ column, position = .after column → '\x60' ∉ column.toList := by
    rintro column rfl
    exact backtick_notMem_of_admits (by decide) (admits_of_after hposition)
  have htext : (Lexeme.text (addColumnBody (Lexeme.qualified c.database m.table) d position ++
      [mark ";"])).toList =
        "ALTER TABLE ".toList ++ ((Lexeme.text (Lexeme.qualified c.database m.table)).toList ++
          ("\n\tADD COLUMN ".toList ++ '\x60' :: (d.column.toList ++ '\x60' ::
            (' ' :: (d.inTable.definition.toList ++ ' ' ::
              ((Lexeme.text position.lexemes).toList ++ [';'])))))) := by
    have hd' := d.toList_lexemes
    simp only [addColumnBody, alterTable, Lexeme.text_append, String.toList_append, hd']
    simp [Lexeme.toList_text_cons, Lexeme.spell, words, space]
  have haction : '\x60' ∉ "\n\tADD COLUMN ".toList := by decide
  rw [ofText, Statement.text_ofBody, htext, splitAt_qualified hadmits (by decide),
    Text.splitAt_append haction,
    Text.splitAt_append (backtick_notMem_of_admits (by decide) hcolumn)]
  dsimp only
  rw [if_pos ⟨rfl, rfl, rfl⟩, placed_position hdefinition hplace]
  simp [ColumnDefinition.inTable]

end AddedColumn

end TypedSql
