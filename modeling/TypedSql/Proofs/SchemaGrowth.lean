/-
Tables that grow column by column.

A column is added to a table as the statement says: in front of all, or right behind the column that
it names (`WrittenTable.alter`). Columns of a model that are missing may be added in any order in
which a column comes when the one before it is there (`AddOrder`).

* `alter_step` — an added column takes the place that it has among the columns of the model;
* `Compiler.grow_eq` — so the table ends up as the one that is created for the whole model.
-/
import Mathlib
import TypedSql.Proofs.TableText

namespace TypedSql

/-! ### Adding columns to a table -/

namespace WrittenTable

/-- The columns with another one right behind the column of a name, if there is one. -/
def behind (column : TableColumn) (name : String) : List TableColumn → Option (List TableColumn)
  | [] => none
  | c :: rest =>
    if c.name = name then some (c :: column :: rest)
    else (behind column name rest).map (c :: ·)

/-- The columns with another one at a place. -/
def place (column : TableColumn) (position : ColumnPosition) (columns : List TableColumn) :
    Option (List TableColumn) :=
  match position with
  | .first => some (column :: columns)
  | .after name => behind column name columns

/-- The table after a statement that adds a column. The statement must be one for this table, the
column must be new, and the place must be there. -/
def alter (t : WrittenTable) (text : String) : Option WrittenTable := do
  let added ← AddedColumn.ofText text
  if added.database = t.database ∧ added.table = t.name ∧
      added.column.name ∉ t.columns.map TableColumn.name then
    let columns ← place added.column added.position t.columns
    pure { t with columns }
  else none

theorem alter_of_place {t : WrittenTable} {text : String} {column : TableColumn}
    {position : ColumnPosition} {columns : List TableColumn}
    (h : AddedColumn.ofText text = some ⟨t.database, t.name, column, position⟩)
    (new : column.name ∉ t.columns.map TableColumn.name)
    (hplace : place column position t.columns = some columns) :
    t.alter text = some { t with columns } := by
  rw [alter, h, Option.bind_eq_bind, Option.bind_some, if_pos ⟨rfl, rfl, new⟩, hplace]
  rfl

theorem behind_append {front rest : List TableColumn} {previous column : TableColumn}
    (h : previous.name ∉ front.map TableColumn.name) :
    behind column previous.name (front ++ previous :: rest) =
      some (front ++ previous :: column :: rest) := by
  induction front with
  | nil => rw [List.nil_append, behind, if_pos rfl, List.nil_append]
  | cons c front ih =>
    rw [List.map_cons, List.mem_cons, not_or] at h
    rw [List.cons_append, behind, if_neg (Ne.symm h.1), ih h.2]
    rfl

/-- The columns whose names are held. -/
def part (held : List String) (columns : List TableColumn) : List TableColumn :=
  columns.filter fun column => column.name ∈ held

variable {columns front rest : List TableColumn} {previous column : TableColumn}
  {held : List String}

theorem part_append : part held (front ++ rest) = part held front ++ part held rest :=
  List.filter_append _ _

/-- One more name makes no difference to columns of other names. -/
theorem part_cons_of_notMem {name : String} (h : name ∉ columns.map TableColumn.name) :
    part (name :: held) columns = part held columns := by
  refine List.filter_congr fun c hc => ?_
  have hne : c.name ≠ name := fun heq => h (heq ▸ List.mem_map_of_mem hc)
  simp [hne]

/-- The columns that are held stand in their order, so they are those of their names. -/
theorem part_of_sublist {start : List TableColumn} (h : start.Sublist columns)
    (distinct : (columns.map TableColumn.name).Nodup) :
    part (start.map TableColumn.name) columns = start := by
  induction h with
  | slnil => rfl
  | @cons start columns c h ih =>
    rw [List.map_cons, List.nodup_cons] at distinct
    have hc : c.name ∉ start.map TableColumn.name := fun hmem =>
      distinct.1 ((h.map TableColumn.name).subset hmem)
    rw [part, List.filter_cons_of_neg (by simpa using hc)]
    exact ih distinct.2
  | @cons_cons start columns c h ih =>
    rw [List.map_cons, List.nodup_cons] at distinct
    rw [part, List.filter_cons_of_pos (by simp)]
    exact congrArg (c :: ·) ((part_cons_of_notMem distinct.1).trans (ih distinct.2))

theorem place_first (distinct : ((column :: rest).map TableColumn.name).Nodup)
    (missing : column.name ∉ held) :
    place column .first (part held (column :: rest)) =
      some (part (column.name :: held) (column :: rest)) := by
  rw [List.map_cons, List.nodup_cons] at distinct
  have hbefore : part held (column :: rest) = part held rest :=
    List.filter_cons_of_neg (by simpa using missing)
  have hafter : part (column.name :: held) (column :: rest) =
      column :: part (column.name :: held) rest :=
    List.filter_cons_of_pos (by simp)
  rw [hbefore, hafter, part_cons_of_notMem distinct.1]
  rfl

theorem place_after
    (distinct : ((front ++ previous :: column :: rest).map TableColumn.name).Nodup)
    (there : previous.name ∈ held) (missing : column.name ∉ held) :
    place column (.after previous.name) (part held (front ++ previous :: column :: rest)) =
      some (part (column.name :: held) (front ++ previous :: column :: rest)) := by
  rw [List.map_append, List.map_cons, List.map_cons, List.nodup_append] at distinct
  obtain ⟨-, hrest, hfront⟩ := distinct
  rw [List.nodup_cons, List.nodup_cons] at hrest
  have hprevious : previous.name ∉ (part held front).map TableColumn.name := fun hmem =>
    hfront _ ((List.filter_sublist.map TableColumn.name).subset hmem) _ List.mem_cons_self rfl
  have hcolumn : column.name ∉ front.map TableColumn.name := fun hmem =>
    hfront _ hmem _ (List.mem_cons_of_mem _ List.mem_cons_self) rfl
  have hbefore : part held (previous :: column :: rest) = previous :: part held rest := by
    rw [part, List.filter_cons_of_pos (by simpa using there),
      List.filter_cons_of_neg (by simpa using missing)]
    rfl
  have hafter : part (column.name :: held) (previous :: column :: rest) =
      previous :: column :: part (column.name :: held) rest := by
    rw [part, List.filter_cons_of_pos (by simp [there]), List.filter_cons_of_pos (by simp)]
    rfl
  rw [part_append, part_append, hbefore, hafter, part_cons_of_notMem hcolumn,
    part_cons_of_notMem hrest.2.1]
  exact behind_append hprevious

end WrittenTable

/-- Adds the columns of properties one after the other; none if a statement does not compile or
cannot be carried out. -/
def Compiler.grow (c : Compiler) (m : RowModel) (t : WrittenTable) :
    List String → Option WrittenTable
  | [] => some t
  | property :: rest =>
    match c.addColumn m property with
    | .ok s => (t.alter s.text).bind fun t => c.grow m t rest
    | .error _ => none

/-- An order in which missing columns may be added to a table that has some, by name: the first
column of the model at any time, each other one when the column before it is there. -/
inductive AddOrder (m : RowModel) : List String → List String → Prop
  | nil (held : List String) : AddOrder m held []
  | first {held rest : List String} {f : Field} (hf : m.fields[0]? = some f)
      (missing : f.columnName ∉ held) (behind : AddOrder m (f.columnName :: held) rest) :
      AddOrder m held (f.property :: rest)
  | next {held rest : List String} {k : Nat} {previous f : Field}
      (hprevious : m.fields[k]? = some previous) (hf : m.fields[k + 1]? = some f)
      (there : previous.columnName ∈ held) (missing : f.columnName ∉ held)
      (behind : AddOrder m (f.columnName :: held) rest) : AddOrder m held (f.property :: rest)

/-! ### Statements that add columns -/

section Models

variable {c : Compiler} {m : RowModel} {f g : Field} {k j : Nat}

theorem index_eq_of_property (distinct : (m.fields.map Field.property).Nodup)
    (hf : m.fields[k]? = some f) (hg : m.fields[j]? = some g) (h : g.property = f.property) :
    j = k := by
  obtain ⟨hk, rfl⟩ := List.getElem?_eq_some_iff.mp hf
  obtain ⟨hj, rfl⟩ := List.getElem?_eq_some_iff.mp hg
  refine (@List.Nodup.getElem_inj_iff _ _ distinct j (by simpa using hj) k (by simpa using hk)).mp ?_
  rw [List.getElem_map, List.getElem_map]
  exact h

theorem index?_of_nodup (distinct : (m.fields.map Field.property).Nodup)
    (hf : m.fields[k]? = some f) : m.index? f.property = some k := by
  obtain ⟨hk, rfl⟩ := List.getElem?_eq_some_iff.mp hf
  refine List.findIdx?_eq_some_iff_getElem.mpr ⟨hk, beq_self_eq_true _, fun j hj heq => ?_⟩
  have hsame : j = k :=
    index_eq_of_property distinct hf (List.getElem?_eq_getElem _) (eq_of_beq heq)
  omega

theorem lookup_of_nodup (distinct : (m.fields.map Field.property).Nodup)
    (hf : m.fields[k]? = some f) : m.lookup f.property = .ok f := by
  have hindex : m.fields.findIdx? (fun g => g.property == f.property) = some k :=
    index?_of_nodup distinct hf
  have hfield : m.field? f.property = some f := by
    rw [RowModel.field?, List.find?_eq_bind_findIdx?_getElem?, hindex, Option.bind_some, hf]
  rw [RowModel.lookup, hfield]

/-- The text that adds the column of a field, where all of it can be built. -/
theorem addColumn_of_ok {table : List Lexeme} {d : ColumnDefinition} {position : ColumnPosition}
    (hindex : m.index? f.property = some k) (hlookup : m.lookup f.property = .ok f)
    (hposition : ColumnPosition.ofIndex m k = .ok position)
    (htable : c.tableLexemes m = .ok table) (hd : ColumnDefinition.ofField f = .ok d) :
    c.addColumn m f.property = .ok (.ofBody (addColumnBody table d position) []) := by
  simp only [Compiler.addColumn, hindex, hlookup, hposition, htable, hd, ok_bind]
  rfl

theorem checkedColumn_of_ofField {d : ColumnDefinition} (h : ColumnDefinition.ofField f = .ok d) :
    f.checkedColumn = .ok f.columnName := by
  obtain ⟨native, -, h₁⟩ := bind_eq_ok.mp h
  obtain ⟨column, hcolumn, -⟩ := bind_eq_ok.mp h₁
  exact (checkedColumn_ok hcolumn).1 ▸ hcolumn

end Models

/-! ### One column -/

section Steps

variable {c : Compiler} {m : RowModel} {d : TableDefinition} {table : List Lexeme}
  {f previous : Field} {k : Nat} {held : List String}

theorem names_inTable (hd : TableDefinition.ofModel m = .ok d) :
    d.inTable.map TableColumn.name = m.fields.map Field.columnName := by
  have hcolumns := columns_ofModel hd
  rw [TableDefinition.inTable, List.map_map]
  generalize m.fields = fields, d.columns = definitions at hcolumns
  induction hcolumns with
  | nil => rfl
  | cons hfield _ ih =>
    rw [List.map_cons, List.map_cons, ih]
    exact congrArg (· :: _) (ofField_eq hfield).1

/-- The column of a field in the table that is created, and the statement that adds it. -/
theorem exists_addColumn (hd : TableDefinition.ofModel m = .ok d)
    (htable : c.tableLexemes m = .ok table) (distinct : (m.fields.map Field.property).Nodup)
    (hf : m.fields[k]? = some f) {position : ColumnPosition}
    (hposition : ColumnPosition.ofIndex m k = .ok position) :
    ∃ s column, c.addColumn m f.property = .ok s ∧ d.inTable[k]? = some column ∧
      column.name = f.columnName ∧
      AddedColumn.ofText s.text = some ⟨c.database, m.table, column, position⟩ := by
  obtain ⟨definition, hdefinition, hofField⟩ := exists_getElem?_of_forall₂ (columns_ofModel hd) hf
  refine ⟨_, definition.inTable, addColumn_of_ok (index?_of_nodup distinct hf)
    (lookup_of_nodup distinct hf) hposition htable hofField, ?_, (ofField_eq hofField).1,
    AddedColumn.ofText_addColumn htable hofField hposition⟩
  rw [TableDefinition.inTable, List.getElem?_map, hdefinition]
  rfl

/-- The table of a model, with some columns. -/
def Compiler.tableOf (c : Compiler) (m : RowModel) (columns : List TableColumn) : WrittenTable :=
  ⟨c.database, m.table, columns⟩

/-- A column that takes its place among those that are there is added by its statement. -/
theorem alter_step (hd : TableDefinition.ofModel m = .ok d)
    (htable : c.tableLexemes m = .ok table) (properties : (m.fields.map Field.property).Nodup)
    (hf : m.fields[k]? = some f) {position : ColumnPosition}
    (hposition : ColumnPosition.ofIndex m k = .ok position) (missing : f.columnName ∉ held)
    (hplace : ∀ column, d.inTable[k]? = some column → column.name = f.columnName →
      WrittenTable.place column position (WrittenTable.part held d.inTable) =
        some (WrittenTable.part (column.name :: held) d.inTable)) :
    ∃ s, c.addColumn m f.property = .ok s ∧
      (c.tableOf m (WrittenTable.part held d.inTable)).alter s.text =
        some (c.tableOf m (WrittenTable.part (f.columnName :: held) d.inTable)) := by
  obtain ⟨s, column, hs, hcolumn, hname, htext⟩ :=
    exists_addColumn hd htable properties hf hposition
  have hnew : column.name ∉ (WrittenTable.part held d.inTable).map TableColumn.name := by
    intro hmem
    obtain ⟨other, hother, heq⟩ := List.mem_map.mp hmem
    have hheld : other.name ∈ held := by simpa using (List.mem_filter.mp hother).2
    exact missing (hname ▸ heq ▸ hheld)
  have halter :=
    WrittenTable.alter_of_place (t := c.tableOf m (WrittenTable.part held d.inTable)) htext hnew
      (hplace column hcolumn hname)
  exact ⟨s, hs, hname ▸ halter⟩

/-- The first column takes its place in front of those that are there. -/
theorem alter_first (hd : TableDefinition.ofModel m = .ok d)
    (htable : c.tableLexemes m = .ok table) (properties : (m.fields.map Field.property).Nodup)
    (columns : (m.fields.map Field.columnName).Nodup) (hf : m.fields[0]? = some f)
    (missing : f.columnName ∉ held) :
    ∃ s, c.addColumn m f.property = .ok s ∧
      (c.tableOf m (WrittenTable.part held d.inTable)).alter s.text =
        some (c.tableOf m (WrittenTable.part (f.columnName :: held) d.inTable)) := by
  refine alter_step hd htable properties hf rfl missing fun column hcolumn hname => ?_
  obtain ⟨rest, hall⟩ : ∃ rest, d.inTable = column :: rest := by
    rw [← List.head?_eq_getElem?] at hcolumn
    exact List.head?_eq_some_iff.mp hcolumn
  rw [← names_inTable hd, hall] at columns
  rw [hall]
  exact WrittenTable.place_first columns (hname ▸ missing)

/-- Each other column takes its place behind the one before it, if that is there. -/
theorem alter_next (hd : TableDefinition.ofModel m = .ok d)
    (htable : c.tableLexemes m = .ok table) (properties : (m.fields.map Field.property).Nodup)
    (columns : (m.fields.map Field.columnName).Nodup) (hprevious : m.fields[k]? = some previous)
    (hf : m.fields[k + 1]? = some f) (there : previous.columnName ∈ held)
    (missing : f.columnName ∉ held) :
    ∃ s, c.addColumn m f.property = .ok s ∧
      (c.tableOf m (WrittenTable.part held d.inTable)).alter s.text =
        some (c.tableOf m (WrittenTable.part (f.columnName :: held) d.inTable)) := by
  obtain ⟨before, hbefore, hofField⟩ :=
    exists_getElem?_of_forall₂ (columns_ofModel hd) hprevious
  have hposition : ColumnPosition.ofIndex m (k + 1) = .ok (.after before.inTable.name) := by
    simp only [ColumnPosition.ofIndex, hprevious, checkedColumn_of_ofField hofField, ok_bind]
    exact congrArg (fun name => Except.ok (ColumnPosition.after name)) (ofField_eq hofField).1.symm
  refine alter_step hd htable properties hf hposition missing fun column hcolumn hname => ?_
  -- the two columns stand next to each other among all
  obtain ⟨front, rest, hall⟩ :
      ∃ front rest, d.inTable = front ++ before.inTable :: column :: rest := by
    have hk : d.inTable[k]? = some before.inTable := by
      rw [TableDefinition.inTable, List.getElem?_map, hbefore]
      rfl
    obtain ⟨hlt, hcolumn⟩ := List.getElem?_eq_some_iff.mp hcolumn
    obtain ⟨hlt', hk⟩ := List.getElem?_eq_some_iff.mp hk
    refine ⟨d.inTable.take k, d.inTable.drop (k + 2), ?_⟩
    rw [← hk, ← hcolumn, List.getElem_cons_drop, List.getElem_cons_drop, List.take_append_drop]
  rw [← names_inTable hd, hall] at columns
  have hheld : before.inTable.name ∈ held := by
    show before.column ∈ held
    rw [(ofField_eq hofField).1]
    exact there
  rw [hall]
  exact WrittenTable.place_after columns hheld (hname ▸ missing)

end Steps

/-! ### All missing columns -/

/-- The columns that are missing are added one after the other, and then all are there. -/
theorem grow_part {c : Compiler} {m : RowModel} {d : TableDefinition} {table : List Lexeme}
    (hd : TableDefinition.ofModel m = .ok d) (htable : c.tableLexemes m = .ok table)
    (properties : (m.fields.map Field.property).Nodup)
    (columns : (m.fields.map Field.columnName).Nodup) {held added : List String}
    (order : AddOrder m held added)
    (complete : ∀ f ∈ m.fields, f.columnName ∈ held ∨ f.property ∈ added) :
    c.grow m (c.tableOf m (WrittenTable.part held d.inTable)) added =
      some (c.tableOf m d.inTable) := by
  have hmore : ∀ {held rest : List String} {f : Field}, f ∈ m.fields →
      (∀ g ∈ m.fields, g.columnName ∈ held ∨ g.property ∈ f.property :: rest) →
      ∀ g ∈ m.fields, g.columnName ∈ f.columnName :: held ∨ g.property ∈ rest := by
    intro held rest f hf hall g hg
    obtain hheld | hproperty := hall g hg
    · exact .inl (List.mem_cons_of_mem _ hheld)
    · obtain hsame | hrest := List.mem_cons.mp hproperty
      · obtain rfl := List.inj_on_of_nodup_map properties hg hf hsame
        exact .inl List.mem_cons_self
      · exact .inr hrest
  induction order with
  | nil held =>
    have hall : WrittenTable.part held d.inTable = d.inTable := by
      refine List.filter_eq_self.mpr fun column hcolumn => ?_
      have hname := List.mem_map_of_mem (f := TableColumn.name) hcolumn
      rw [names_inTable hd] at hname
      obtain ⟨f, hf, heq⟩ := List.mem_map.mp hname
      simpa [heq] using complete f hf
    rw [hall, Compiler.grow]
  | first hf missing behind ih =>
    obtain ⟨s, hs, halter⟩ := alter_first hd htable properties columns hf missing
    rw [Compiler.grow, hs]
    dsimp only
    rw [halter, Option.bind_some]
    exact ih (hmore (List.mem_of_getElem? hf) complete)
  | next hprevious hf there missing behind ih =>
    obtain ⟨s, hs, halter⟩ := alter_next hd htable properties columns hprevious hf there missing
    rw [Compiler.grow, hs]
    dsimp only
    rw [halter, Option.bind_some]
    exact ih (hmore (List.mem_of_getElem? hf) complete)

/-- A table that has some of the columns of a model is the one that is created for all of them, once
the missing columns are added. -/
theorem Compiler.grow_eq {c : Compiler} {m : RowModel} {s : Statement} (h : c.createTable m = .ok s)
    (properties : (m.fields.map Field.property).Nodup)
    (columns : (m.fields.map Field.columnName).Nodup) :
    ∃ t, WrittenTable.ofText s.text = some t ∧
      t.columns.map TableColumn.name = m.fields.map Field.columnName ∧
      ∀ start added, start.Sublist t.columns → AddOrder m (start.map TableColumn.name) added →
        (∀ f ∈ m.fields, f.columnName ∈ start.map TableColumn.name ∨ f.property ∈ added) →
        c.grow m { t with columns := start } added = some t := by
  obtain ⟨d, hd, htext⟩ := WrittenTable.ofText_createTable h
  obtain ⟨_, table, -, htable, -⟩ := createTable_ok h
  refine ⟨_, htext, names_inTable hd, fun start added hstart order complete => ?_⟩
  have distinct : (d.inTable.map TableColumn.name).Nodup := by
    rw [names_inTable hd]
    exact columns
  have hgrow := grow_part hd htable properties columns order complete
  rw [WrittenTable.part_of_sublist hstart distinct] at hgrow
  exact hgrow

/-- The rows of numbered readings, with a note and the time at which they were taken. -/
def readings : RowModel :=
  ⟨"Reading", "readings", [
    { property := "Id", host := ⟨.i64, false⟩, key := .primary, autoIncrement := true },
    { property := "Note", host := ⟨.string, true⟩, maxLength := some 64 },
    { property := "Taken", host := ⟨.dateTime, false⟩, created := true }]⟩

/-- A table that has the notes only gets the times behind them, and the numbers in front of all. -/
theorem Compiler.grow_readings :
    ∃ s, createTable ⟨"shop", by decide⟩ readings = .ok s ∧
      WrittenTable.ofText s.text = some ⟨"shop", "readings", [
        ⟨"ID", "bigint NOT NULL AUTO_INCREMENT"⟩, ⟨"NOTE", "varbinary(64) NULL"⟩,
        ⟨"TAKEN", "datetime NOT NULL DEFAULT CURRENT_TIMESTAMP"⟩]⟩ ∧
      grow ⟨"shop", by decide⟩ readings ⟨"shop", "readings", [⟨"NOTE", "varbinary(64) NULL"⟩]⟩
        ["Taken", "Id"] = WrittenTable.ofText s.text := by
  have hcreate : createTable ⟨"shop", by decide⟩ readings = .ok
      ⟨"CREATE TABLE `shop`.`readings` (\n\t`ID` bigint NOT NULL AUTO_INCREMENT,\n\t`NOTE` " ++
        "varbinary(64) NULL,\n\t`TAKEN` datetime NOT NULL DEFAULT CURRENT_TIMESTAMP,\n\tPRIMARY " ++
        "KEY (`ID`)\n);", []⟩ := by decide +kernel
  obtain ⟨t, htext, -, hgrow⟩ := grow_eq hcreate (by decide +kernel) (by decide +kernel)
  have htable : t = ⟨"shop", "readings", [⟨"ID", "bigint NOT NULL AUTO_INCREMENT"⟩,
      ⟨"NOTE", "varbinary(64) NULL"⟩,
      ⟨"TAKEN", "datetime NOT NULL DEFAULT CURRENT_TIMESTAMP"⟩]⟩ :=
    Option.some.inj (htext.symm.trans (by decide +kernel))
  subst htable
  have hid : AddOrder readings [readings.fields[2].columnName, "NOTE"] ["Id"] :=
    .first (f := readings.fields[0]) rfl (by decide +kernel) (.nil _)
  have order : AddOrder readings ["NOTE"] ["Taken", "Id"] :=
    @AddOrder.next _ _ _ 1 readings.fields[1] readings.fields[2] rfl rfl (by decide +kernel)
      (by decide +kernel) hid
  have complete : ∀ f ∈ readings.fields,
      f.columnName ∈ ["NOTE"] ∨ f.property ∈ ["Taken", "Id"] := by
    decide +kernel
  have hstart : [(⟨"NOTE", "varbinary(64) NULL"⟩ : TableColumn)].Sublist
      [⟨"ID", "bigint NOT NULL AUTO_INCREMENT"⟩, ⟨"NOTE", "varbinary(64) NULL"⟩,
        ⟨"TAKEN", "datetime NOT NULL DEFAULT CURRENT_TIMESTAMP"⟩] := by decide
  exact ⟨_, hcreate, htext, (hgrow _ _ hstart order complete).trans htext.symm⟩

end TypedSql
