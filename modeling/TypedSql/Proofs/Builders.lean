/-
What stands behind a statement that was built: the parts that it was put together from, and the
checks that let them through.

One lemma a builder says what its success establishes (`Compiler.selectTop_ok` and those behind
it). What is proved of all built statements starts from these lemmas; no proof opens a builder
again.
-/
import TypedSql.Proofs.Accepted
import TypedSql.Statement.Procedure
import TypedSql.Statement.Write

namespace TypedSql

open Lexeme (word mark blank space words placeholder qualified)

theorem liftType_ok {α : Type} {result : Except TypeError α} {a : α}
    (h : liftType result = .ok a) : result = .ok a := by
  rw [liftType.eq_def] at h
  split at h
  · exact congrArg Except.ok (Except.ok.inj h)
  · exact absurd h (by simp)

variable {c : Compiler} {m : RowModel} {f : Field}

/-! ### Columns and tables -/

theorem checkedColumn_ok {column : String} (h : f.checkedColumn = .ok column) :
    column = f.columnName ∧ NameKind.column.admits column = true := by
  obtain ⟨⟨⟩, hcheck, h₁⟩ := bind_eq_ok.mp h
  obtain rfl := pure_eq_ok.mp h₁
  exact ⟨rfl, checkName_ok.mp hcheck⟩

theorem tableLexemes_ok {table : List Lexeme} (h : c.tableLexemes m = .ok table) :
    NameKind.table.admits m.table = true ∧ table = Lexeme.qualified c.database m.table := by
  obtain ⟨⟨⟩, hcheck, h₁⟩ := bind_eq_ok.mp h
  exact ⟨checkName_ok.mp hcheck, (pure_eq_ok.mp h₁).symm⟩

theorem lookup_ok {property : String} (h : m.lookup property = .ok f) :
    m.field? property = some f := by
  rw [RowModel.lookup] at h
  split at h
  · rename_i hfield
    exact hfield.trans (congrArg some (Except.ok.inj h))
  · exact absurd h (by simp)

/-! ### Parameters -/

/-- A bound column is named like a parameter, and no reserved one. -/
theorem parameter_ok {p : Parameter} (h : f.parameter = .ok p) :
    isReservedParameter f.property = false ∧ isParameterName f.property = true ∧
      p.name = f.property := by
  rw [Field.parameter] at h
  by_cases hreserved : isReservedParameter f.property = true
  · rw [if_pos hreserved] at h
    exact absurd h throw_bind_ne_ok
  rw [if_neg hreserved] at h
  cases hname : isParameterName f.property with
  | false =>
    rw [hname] at h
    exact absurd h throw_bind_ne_ok
  | true =>
    rw [hname] at h
    obtain ⟨native, -, h₁⟩ := bind_eq_ok.mp h
    obtain ⟨typeName, -, h₂⟩ := bind_eq_ok.mp h₁
    obtain rfl := pure_eq_ok.mp h₂
    exact ⟨by simpa using hreserved, rfl, rfl⟩

theorem ofHost_ok {name : String} {host : HostType} {length : Option UInt32} {p : Parameter}
    (h : Parameter.ofHost name host length = .ok p) : p.name = name := by
  obtain ⟨native, -, h₁⟩ := bind_eq_ok.mp h
  obtain ⟨typeName, -, h₂⟩ := bind_eq_ok.mp h₁
  obtain rfl := pure_eq_ok.mp h₂
  rfl

theorem filterParts_ok {filter : Option Filter} {conditions : List (List Lexeme)}
    {parameters : List Parameter} (h : filterParts m filter = .ok (conditions, parameters)) :
    filter = none ∧ conditions = [] ∧ parameters = [] ∨
      ∃ f condition, filter = some f ∧ f.condition m = .ok condition ∧ conditions = [condition] ∧
        addFilterParams [] f.params = .ok parameters := by
  cases filter with
  | none =>
    obtain ⟨rfl, rfl⟩ := Prod.mk.inj (Except.ok.inj h)
    exact .inl ⟨rfl, rfl, rfl⟩
  | some f =>
    obtain ⟨condition, hcondition, h₁⟩ := bind_eq_ok.mp h
    obtain ⟨added, hadded, h₂⟩ := bind_eq_ok.mp h₁
    obtain ⟨rfl, rfl⟩ := Prod.mk.inj (pure_eq_ok.mp h₂)
    exact .inr ⟨f, condition, rfl, hcondition, rfl, hadded⟩

/-! ### What is read and written -/

theorem selectItem_ok {item : SelectItem} (h : SelectItem.ofField f = .ok item) :
    item.column = f.columnName ∧ NameKind.column.admits item.column = true ∧
      item.property.getD item.column = f.property ∧
      ∀ property ∈ item.property, NameKind.column.admits property = true := by
  obtain ⟨column, hcolumn, h₁⟩ := bind_eq_ok.mp h
  obtain ⟨hname, hadmits⟩ := checkedColumn_ok hcolumn
  split_ifs at h₁ with hsame
  · obtain rfl := pure_eq_ok.mp h₁
    exact ⟨hname, hadmits, hsame, by simp⟩
  · obtain ⟨⟨⟩, hcheck, h₂⟩ := bind_eq_ok.mp h₁
    obtain rfl := pure_eq_ok.mp h₂
    exact ⟨hname, hadmits, rfl, by simpa using checkName_ok.mp hcheck⟩

theorem selectHead_ok {items : List SelectItem} {table : List Lexeme}
    (h : c.selectHead m = .ok (items, table)) :
    m.fields ≠ [] ∧ List.Forall₂ (fun f i => SelectItem.ofField f = .ok i) m.fields items ∧
      c.tableLexemes m = .ok table := by
  rw [Compiler.selectHead] at h
  split_ifs at h with hempty
  · exact absurd h throw_bind_ne_ok
  · obtain ⟨items', hitems, h₁⟩ := bind_eq_ok.mp h
    obtain ⟨table', htable, h₂⟩ := bind_eq_ok.mp h₁
    obtain ⟨rfl, rfl⟩ := Prod.mk.inj (pure_eq_ok.mp h₂)
    exact ⟨by simpa using hempty, mapM_eq_ok.mp hitems, htable⟩

theorem assignment_ok {written : Assignment} {parameter : Option Parameter}
    (h : Assignment.ofField f = .ok (written, parameter)) :
    f.checkedColumn = .ok written.column ∧
      (f.isStamped = true ∧ written.value = .stamp ∧ parameter = none ∨
        f.isStamped = false ∧ written.value = .bound f.property ∧
          ∃ p, f.parameter = .ok p ∧ parameter = some p) := by
  obtain ⟨column, hcolumn, h₁⟩ := bind_eq_ok.mp h
  split_ifs at h₁ with hstamped
  · obtain ⟨rfl, rfl⟩ := Prod.mk.inj (pure_eq_ok.mp h₁)
    exact ⟨hcolumn, .inl ⟨hstamped, rfl, rfl⟩⟩
  · obtain ⟨p, hparameter, h₂⟩ := bind_eq_ok.mp h₁
    obtain ⟨rfl, rfl⟩ := Prod.mk.inj (pure_eq_ok.mp h₂)
    exact ⟨hcolumn, .inr ⟨by simpa using hstamped, rfl, p, hparameter, rfl⟩⟩

theorem assignments_ok {fields : List Field} {written : List Assignment}
    {parameters : List Parameter} (h : assignments fields = .ok (written, parameters)) :
    ∃ parts, List.Forall₂ (fun f part => Assignment.ofField f = .ok part) fields parts ∧
      written = parts.map Prod.fst ∧ parameters = parts.filterMap Prod.snd := by
  obtain ⟨parts, hparts, h₁⟩ := bind_eq_ok.mp h
  obtain ⟨rfl, rfl⟩ := Prod.mk.inj (pure_eq_ok.mp h₁)
  exact ⟨parts, mapM_eq_ok.mp hparts, rfl, rfl⟩

/-! ### Statements without their semicolons -/

/-- All but the semicolon of a statement that reads rows. -/
def Select.body (s : Select) : List Lexeme :=
  [word "SELECT", blank "\n\t"] ++ Lexeme.commaLines (s.items.map SelectItem.lexemes) ++
    [blank "\n", word "FROM", space] ++ s.table ++ whereLexemes s.conditions ++ s.order.lexemes ++
    [blank "\n", word "LIMIT", space, placeholder countName]

theorem Select.lexemes_eq (s : Select) : s.lexemes = s.body ++ [mark ";"] := by
  simp [lexemes, body]

/-- All but the semicolon of a statement that counts rows. -/
def countBody (table : List Lexeme) (conditions : List (List Lexeme)) : List Lexeme :=
  [word "SELECT", space, word "COUNT", mark "(", mark "*", mark ")", blank "\n", word "FROM",
    space] ++ table ++ whereLexemes conditions

/-- All but the semicolon of an insert. -/
def insertBody (table : List Lexeme) (written : List Assignment) : List Lexeme :=
  words ["INSERT", "INTO"] ++ [space] ++ table ++ [space, mark "(", blank "\n\t"] ++
    Lexeme.commaLines (written.map fun a => [.name a.column]) ++
    [blank "\n", mark ")", space, word "VALUES", space, mark "(", blank "\n\t"] ++
    Lexeme.commaLines (written.map fun a => a.value.lexemes) ++ [blank "\n", mark ")"]

theorem insertLexemes_eq (table : List Lexeme) (written : List Assignment) :
    insertLexemes table written = insertBody table written ++ [mark ";"] := by
  simp [insertLexemes, insertBody]

/-- All but the semicolon of an update. -/
def updateBody (table : List Lexeme) (written : List Assignment) (condition : List Lexeme) :
    List Lexeme :=
  [word "UPDATE", space] ++ table ++ [space, word "SET", blank "\n\t"] ++
    Lexeme.commaLines (written.map fun a => binary [.name a.column] (mark "=") a.value.lexemes) ++
    whereLexemes [condition]

/-- All but the semicolon of a delete. -/
def deleteBody (table condition : List Lexeme) : List Lexeme :=
  words ["DELETE", "FROM"] ++ [space] ++ table ++ whereLexemes [condition]

/-- All but the semicolon of a statement that creates a table. -/
def createTableBody (table : List Lexeme) (d : TableDefinition) : List Lexeme :=
  words ["CREATE", "TABLE"] ++ [space] ++ table ++ [space, mark "(", blank "\n\t"] ++ d.lexemes ++
    [blank "\n", mark ")"]

/-- All but the semicolon of a statement that adds a column. -/
def addColumnBody (table : List Lexeme) (d : ColumnDefinition) (position : ColumnPosition) :
    List Lexeme :=
  alterTable table ++ words ["ADD", "COLUMN"] ++ [space] ++ d.lexemes ++ [space] ++ position.lexemes

/-- All but the semicolon of a statement that drops a column. -/
def dropColumnBody (database table column : String) : List Lexeme :=
  alterTable (qualified database table) ++ words ["DROP", "COLUMN"] ++ [space, .name column]

/-- All but the semicolon of a statement that drops a procedure. -/
def dropProcedureBody (database name : String) : List Lexeme :=
  words ["DROP", "PROCEDURE", "IF", "EXISTS"] ++ [space] ++ qualified database name

/-! ### Builders -/

/-- A statement of lexemes with a semicolon behind them. -/
def Statement.ofBody (body : List Lexeme) (parameters : List Parameter) : Statement :=
  .ofLexemes (body ++ [mark ";"]) parameters

theorem Statement.text_ofBody (body : List Lexeme) (parameters : List Parameter) :
    (ofBody body parameters).text = Lexeme.text (body ++ [mark ";"]) :=
  rfl

namespace Compiler

variable {s : Statement}

theorem rowOrder_ok {order : Option OrderBy} {rowOrder : RowOrder}
    (h : Compiler.rowOrder m order = .ok rowOrder) :
    order = none ∧ rowOrder = .unordered ∨
      ∃ o f column, order = some o ∧ m.lookup o.property = .ok f ∧ f.checkedColumn = .ok column ∧
        rowOrder = .byColumn column o.order := by
  cases order with
  | none => exact .inl ⟨rfl, (Except.ok.inj h).symm⟩
  | some o =>
    obtain ⟨f, hfield, h₁⟩ := bind_eq_ok.mp h
    obtain ⟨column, hcolumn, h₂⟩ := bind_eq_ok.mp h₁
    exact .inr ⟨o, f, column, rfl, hfield, hcolumn, (pure_eq_ok.mp h₂).symm⟩

theorem selectTop_ok {filter : Option Filter} {order : Option OrderBy}
    (h : c.selectTop m filter order = .ok s) :
    ∃ items table conditions parameters rowOrder count, c.selectHead m = .ok (items, table) ∧
      filterParts m filter = .ok (conditions, parameters) ∧
      Compiler.rowOrder m order = .ok rowOrder ∧ countParameter = .ok count ∧
      s = .ofBody (Select.body ⟨items, table, conditions, rowOrder⟩) (parameters ++ [count]) := by
  obtain ⟨⟨items, table⟩, hhead, h₁⟩ := bind_eq_ok.mp h
  obtain ⟨⟨conditions, parameters⟩, hparts, h₂⟩ := bind_eq_ok.mp h₁
  obtain ⟨rowOrder, horder, h₃⟩ := bind_eq_ok.mp h₂
  obtain ⟨count, hcount, h₄⟩ := bind_eq_ok.mp h₃
  obtain rfl := pure_eq_ok.mp h₄
  exact ⟨items, table, conditions, parameters, rowOrder, count, hhead, hparts, horder, hcount,
    by rw [Select.lexemes_eq, Statement.ofBody]⟩

theorem selectPage_ok {order : OrderBy} {filter : Option Filter}
    (h : c.selectPage m order filter = .ok s) :
    ∃ keyField key items table conditions parameters ascending start count,
      m.lookup order.property = .ok keyField ∧ keyField.checkedColumn = .ok key ∧
      c.selectHead m = .ok (items, table) ∧
      filterParts m filter = .ok (conditions, parameters) ∧
      Parameter.ofHost ascendingName (.plain .bool) none = .ok ascending ∧
      Parameter.ofHost startName keyField.host.orNull keyField.maxLength = .ok start ∧
      countParameter = .ok count ∧
      s = .ofBody (Select.body ⟨items, table, conditions ++ [pageCondition key], .byPage key⟩)
        (parameters ++ [ascending, start, count]) := by
  obtain ⟨keyField, hfield, h₁⟩ := bind_eq_ok.mp h
  obtain ⟨key, hkey, h₂⟩ := bind_eq_ok.mp h₁
  obtain ⟨⟨items, table⟩, hhead, h₃⟩ := bind_eq_ok.mp h₂
  obtain ⟨⟨conditions, parameters⟩, hparts, h₄⟩ := bind_eq_ok.mp h₃
  obtain ⟨ascending, hascending, h₅⟩ := bind_eq_ok.mp h₄
  obtain ⟨start, hstart, h₆⟩ := bind_eq_ok.mp h₅
  obtain ⟨count, hcount, h₇⟩ := bind_eq_ok.mp h₆
  obtain rfl := pure_eq_ok.mp h₇
  exact ⟨keyField, key, items, table, conditions, parameters, ascending, start, count, hfield, hkey,
    hhead, hparts, hascending, hstart, hcount, by rw [Select.lexemes_eq, Statement.ofBody]⟩

theorem count_ok {filter : Option Filter} (h : c.count m filter = .ok s) :
    ∃ table conditions parameters, c.tableLexemes m = .ok table ∧
      filterParts m filter = .ok (conditions, parameters) ∧
      s = .ofBody (countBody table conditions) parameters := by
  obtain ⟨table, htable, h₁⟩ := bind_eq_ok.mp h
  obtain ⟨⟨conditions, parameters⟩, hparts, h₂⟩ := bind_eq_ok.mp h₁
  exact ⟨table, conditions, parameters, htable, hparts, (pure_eq_ok.mp h₂).symm⟩

theorem insert_ok (h : c.insert m = .ok s) :
    ∃ table written parameters, c.tableLexemes m = .ok table ∧
      assignments m.insertedFields = .ok (written, parameters) ∧
      s = .ofBody (insertBody table written) parameters := by
  obtain ⟨table, htable, h₁⟩ := bind_eq_ok.mp h
  obtain ⟨⟨written, parameters⟩, hwritten, h₂⟩ := bind_eq_ok.mp h₁
  obtain rfl := pure_eq_ok.mp h₂
  exact ⟨table, written, parameters, htable, hwritten, by rw [insertLexemes_eq, Statement.ofBody]⟩

theorem update_ok {filter : Filter} (h : c.update m filter = .ok s) :
    ∃ table written own condition parameters, c.tableLexemes m = .ok table ∧
      assignments m.updatedFields = .ok (written, own) ∧ filter.condition m = .ok condition ∧
      addFilterParams own filter.params = .ok parameters ∧
      s = .ofBody (updateBody table written condition) parameters := by
  obtain ⟨table, htable, h₁⟩ := bind_eq_ok.mp h
  obtain ⟨⟨written, own⟩, hwritten, h₂⟩ := bind_eq_ok.mp h₁
  dsimp only at h₂
  split_ifs at h₂
  · exact absurd h₂ throw_bind_ne_ok
  · obtain ⟨condition, hcondition, h₃⟩ := bind_eq_ok.mp h₂
    obtain ⟨parameters, hparameters, h₄⟩ := bind_eq_ok.mp h₃
    exact ⟨table, written, own, condition, parameters, htable, hwritten, hcondition, hparameters,
      (pure_eq_ok.mp h₄).symm⟩

/-- An update writes a column at least. -/
theorem updatedFields_ne_nil {filter : Filter} (h : c.update m filter = .ok s) :
    m.updatedFields ≠ [] := by
  intro hnone
  obtain ⟨table, -, h₁⟩ := bind_eq_ok.mp h
  obtain ⟨⟨written, own⟩, hwritten, h₂⟩ := bind_eq_ok.mp h₁
  rw [hnone] at hwritten
  obtain ⟨rfl, -⟩ := Prod.mk.inj (Except.ok.inj hwritten)
  exact throw_bind_ne_ok h₂

theorem delete_ok {filter : Filter} (h : c.delete m filter = .ok s) :
    ∃ table condition parameters, c.tableLexemes m = .ok table ∧
      filter.condition m = .ok condition ∧ addFilterParams [] filter.params = .ok parameters ∧
      s = .ofBody (deleteBody table condition) parameters := by
  obtain ⟨table, htable, h₁⟩ := bind_eq_ok.mp h
  obtain ⟨condition, hcondition, h₂⟩ := bind_eq_ok.mp h₁
  obtain ⟨parameters, hparameters, h₃⟩ := bind_eq_ok.mp h₂
  exact ⟨table, condition, parameters, htable, hcondition, hparameters, (pure_eq_ok.mp h₃).symm⟩

theorem createTable_ok (h : c.createTable m = .ok s) :
    ∃ definition table, TableDefinition.ofModel m = .ok definition ∧
      c.tableLexemes m = .ok table ∧ s = .ofBody (createTableBody table definition) [] := by
  obtain ⟨definition, hdefinition, h₁⟩ := bind_eq_ok.mp h
  obtain ⟨table, htable, h₂⟩ := bind_eq_ok.mp h₁
  obtain rfl := pure_eq_ok.mp h₂
  exact ⟨definition, table, hdefinition, htable, by simp [Statement.ofBody, createTableBody]⟩

theorem addColumn_ok {property : String} (h : c.addColumn m property = .ok s) :
    ∃ index f position table definition, m.index? property = some index ∧
      m.lookup property = .ok f ∧ ColumnPosition.ofIndex m index = .ok position ∧
      c.tableLexemes m = .ok table ∧ ColumnDefinition.ofField f = .ok definition ∧
      s = .ofBody (addColumnBody table definition position) [] := by
  rw [Compiler.addColumn] at h
  split at h
  · exact absurd h throw_ne_ok
  · rename_i index hindex
    obtain ⟨f, hfield, h₁⟩ := bind_eq_ok.mp h
    obtain ⟨position, hposition, h₂⟩ := bind_eq_ok.mp h₁
    obtain ⟨table, htable, h₃⟩ := bind_eq_ok.mp h₂
    obtain ⟨definition, hdefinition, h₄⟩ := bind_eq_ok.mp h₃
    exact ⟨index, f, position, table, definition, hindex, hfield, hposition, htable, hdefinition,
      (pure_eq_ok.mp h₄).symm⟩

end Compiler

theorem dropColumn_ok {database table column : String} {s : Statement}
    (h : dropColumn database table column = .ok s) :
    NameKind.database.admits database = true ∧ NameKind.table.admits table = true ∧
      NameKind.column.admits column = true ∧
      s = .ofBody (dropColumnBody database table column) [] := by
  obtain ⟨⟨⟩, hdatabase, h₁⟩ := bind_eq_ok.mp h
  obtain ⟨⟨⟩, htable, h₂⟩ := bind_eq_ok.mp h₁
  obtain ⟨⟨⟩, hcolumn, h₃⟩ := bind_eq_ok.mp h₂
  obtain rfl := pure_eq_ok.mp h₃
  exact ⟨checkName_ok.mp hdatabase, checkName_ok.mp htable, checkName_ok.mp hcolumn,
    by simp [Statement.ofBody, dropColumnBody]⟩

theorem dropProcedure_ok {database name : String} {s : Statement}
    (h : Procedure.drop database name = .ok s) :
    NameKind.database.admits database = true ∧ NameKind.procedure.admits name = true ∧
      s = .ofBody (dropProcedureBody database name) [] := by
  obtain ⟨⟨⟩, hdatabase, h₁⟩ := bind_eq_ok.mp h
  obtain ⟨⟨⟩, hname, h₂⟩ := bind_eq_ok.mp h₁
  exact ⟨checkName_ok.mp hdatabase, checkName_ok.mp hname, (pure_eq_ok.mp h₂).symm⟩

end TypedSql
