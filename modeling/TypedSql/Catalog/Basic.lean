/-
The catalog: what is known of the server's databases, tables, columns and indexes. Each look-up asks
the server for the list that it reads from. What is still listed keeps its number, and all that is
known below it; what is new gets a fresh number, and nothing is known below it yet.

Main statements: `values_merge` (after a list came in, exactly what it names is known) and
`mem_merge_of_mem` (what is still listed stays the same entry).
-/
import TypedSql.Catalog.Index
import TypedSql.Dialogue
import TypedSql.Sql.Lexeme
import TypedSql.Statement.Table

namespace TypedSql

/-! ### Entries -/

/-- Something that is known, by the number that it was given when it was first listed. -/
structure Entry (α : Type) where
  id : Nat
  value : α
  deriving DecidableEq, Repr

namespace Entry

variable {α : Type} [DecidableEq α]

/-- The entries of a fresh list, numbered from `next`. A value that is known already stays the first
old entry that has it. The next free number comes with them. -/
def merge (old : List (Entry α)) : Nat → List α → List (Entry α) × Nat
  | next, [] => ([], next)
  | next, a :: rest =>
    match old.find? fun entry => entry.value == a with
    | some entry =>
      let (entries, next) := merge old next rest
      (entry :: entries, next)
    | none =>
      let (entries, after) := merge old (next + 1) rest
      (⟨next, a⟩ :: entries, after)

theorem values_merge (old : List (Entry α)) (next : Nat) (fresh : List α) :
    (merge old next fresh).1.map Entry.value = fresh := by
  induction fresh generalizing next with
  | nil => rfl
  | cons a rest ih =>
    rw [merge]
    split
    · rename_i entry hfind
      have hvalue : entry.value = a := by simpa using List.find?_some hfind
      simp [hvalue, ih]
    · simp [ih]

theorem le_merge (old : List (Entry α)) (next : Nat) (fresh : List α) :
    next ≤ (merge old next fresh).2 := by
  induction fresh generalizing next with
  | nil => exact Nat.le_refl next
  | cons a rest ih =>
    rw [merge]
    split
    · exact ih next
    · exact Nat.le_trans (Nat.le_succ next) (ih (next + 1))

/-- A known entry whose value is listed stays. -/
theorem mem_merge_of_mem {old : List (Entry α)} {entry : Entry α}
    (hfirst : old.find? (fun e => e.value == entry.value) = some entry) (next : Nat)
    {fresh : List α} (h : entry.value ∈ fresh) : entry ∈ (merge old next fresh).1 := by
  induction fresh generalizing next with
  | nil => simp at h
  | cons a rest ih =>
    rw [merge]
    rcases List.mem_cons.1 h with rfl | h
    · simp [hfirst]
    · split
      · exact List.mem_cons_of_mem _ (ih next h)
      · exact List.mem_cons_of_mem _ (ih (next + 1) h)

end Entry

/-- A table's name and its database. -/
structure TableName where
  database : String
  name : String
  deriving DecidableEq, Repr

/-- A database of the server; the value is its name. -/
abbrev Database := Entry String

/-- A table of the server. -/
abbrev Table := Entry TableName

/-- What a log says of a database. -/
def Database.describe (d : Database) : String :=
  "Database \x7b name: \"" ++ d.value ++ "\" \x7d"

/-- What a log says of a table. -/
def Table.describe (t : Table) : String :=
  "Table \x7b database: \"" ++ t.value.database ++ "\", name: \"" ++ t.value.name ++ "\" \x7d"

/-- What is known of the server. Databases and tables stand in the order of their names. -/
structure Catalog where
  /-- The next free number. -/
  next : Nat := 0
  databases : List Database := []
  /-- The tables of a database, by its number. -/
  tables : Nat → List Table := fun _ => []
  /-- The columns of a table, by its number. -/
  columns : Nat → List (Entry Column) := fun _ => []
  /-- The indexes of a table, by its number. -/
  indexes : Nat → List (Entry Index) := fun _ => []

/-- A question of the catalog to the server. -/
inductive CatalogRequest where
  | rows (text : String)
  | execute (text : String)
  deriving DecidableEq, Repr

namespace CatalogRequest

/-- What the server answers when all goes well. -/
def Reply : CatalogRequest → Type
  | rows _ => List TextRow
  | execute _ => UInt64

/-- The server's answer. -/
abbrev Answer (q : CatalogRequest) : Type :=
  Except ConnectionError q.Reply

end CatalogRequest

/-- Operations of the catalog. -/
abbrev CatalogTask (α : Type) :=
  ExceptT CatalogError (Operation CatalogRequest CatalogRequest.Answer Catalog) α

/-- Asks the server. Its failures are passed on. -/
def CatalogTask.ask (q : CatalogRequest) : CatalogTask q.Reply :=
  ExceptT.mk (Except.mapError CatalogError.connection <$> Operation.ask q)

namespace Catalog

open Lexeme (space words name qualified)

/-! ### What lists tell -/

/-- The names that a list tells, in order. Names of the server that are no names here are passed
over. -/
def listed (kind : NameKind) (rows : List TextRow) : List String :=
  Text.ordered ((rows.filterMap (·.at? 0)).filter kind.admits)

/-- A function with another value at one place. -/
def setAt {α : Type} (f : Nat → α) (place : Nat) (a : α) : Nat → α :=
  fun n => if n = place then a else f n

/-- Learns the databases. -/
def learnDatabases (c : Catalog) (names : List String) : Catalog :=
  let (databases, next) := Entry.merge c.databases c.next names
  { c with databases, next }

/-- Learns the tables of a database. -/
def learnTables (c : Catalog) (database : Database) (names : List String) : Catalog :=
  let fresh := names.map fun name => ⟨database.value, name⟩
  let (tables, next) := Entry.merge (c.tables database.id) c.next fresh
  { c with tables := setAt c.tables database.id tables, next }

/-- Learns the columns of a table. -/
def learnColumns (c : Catalog) (table : Table) (columns : List Column) : Catalog :=
  let (columns, next) := Entry.merge (c.columns table.id) c.next columns
  { c with columns := setAt c.columns table.id columns, next }

/-- Learns the indexes of a table. -/
def learnIndexes (c : Catalog) (table : Table) (indexes : List Index) : Catalog :=
  let (indexes, next) := Entry.merge (c.indexes table.id) c.next indexes
  { c with indexes := setAt c.indexes table.id indexes, next }

/-- The known database of a name. -/
def database? (c : Catalog) (name : String) : Option Database :=
  c.databases.find? fun database => database.value == name

/-- The known table of a name. -/
def table? (c : Catalog) (database : Database) (name : String) : Option Table :=
  (c.tables database.id).find? fun table => table.value.name == name

/-! ### Statements -/

/-- Lists the databases. -/
def showDatabases : String :=
  Lexeme.text (words ["SHOW", "DATABASES"])

/-- Lists the tables of a database. -/
def showTables (database : Database) : String :=
  Lexeme.text (words ["SHOW", "TABLES", "FROM"] ++ [space, name database.value])

/-- Lists the columns of a table. -/
def showColumns (table : Table) : String :=
  Lexeme.text (words ["SHOW", "COLUMNS", "FROM"] ++ space ::
    qualified table.value.database table.value.name)

/-- Lists the indexes of a table. -/
def showIndexes (table : Table) : String :=
  Lexeme.text (words ["SHOW", "INDEX", "FROM"] ++ space ::
    qualified table.value.database table.value.name)

/-- Creates a database. -/
def createDatabaseText (database : String) : String :=
  Lexeme.text (words ["CREATE", "DATABASE"] ++ [space, name database])

/-- Drops a database, if it exists. -/
def dropDatabaseText (database : String) : String :=
  Lexeme.text (words ["DROP", "DATABASE", "IF", "EXISTS"] ++ [space, name database])

/-! ### Operations -/

/-- Asks for rows. -/
def rows (text : String) : CatalogTask (List TextRow) :=
  CatalogTask.ask (.rows text)

/-- Has a statement run. -/
def execute (text : String) : CatalogTask UInt64 :=
  CatalogTask.ask (.execute text)

/-- Goes on with a value, or fails. -/
def orFail {α : Type} : Except CatalogError α → CatalogTask α
  | .ok a => pure a
  | .error e => throw e

/-- Checks a name before anything is asked. -/
def checkName (kind : NameKind) (text : String) : CatalogTask Unit :=
  if kind.admits text then pure () else throw (.invalidName kind text)

/-- Learns which databases there are. -/
def syncDatabases : CatalogTask Unit := do
  let found ← rows showDatabases
  modify fun c => c.learnDatabases (listed .database found)

/-- The database of a name, if there is one. -/
def getDatabase (text : String) : CatalogTask (Option Database) := do
  if NameKind.database.admits text then
    syncDatabases
    return (← get).database? text
  else return none

/-- All databases. -/
def allDatabases : CatalogTask (List Database) := do
  syncDatabases
  return (← get).databases

/-- Creates a database that is not listed. -/
def createUnlisted (text : String) : CatalogTask Database := do
  let _ ← execute (createDatabaseText text)
  syncDatabases
  match (← get).database? text with
  | some database => pure database
  | none => throw (.introspection (.missingAfterCreate .database text))

/-- Creates a database; there must not be one of this name. -/
def createDatabase (text : String) : CatalogTask Database := do
  checkName .database text
  syncDatabases
  match (← get).database? text with
  | some _ => throw (.alreadyExists .database text)
  | none => createUnlisted text

/-- The database of a name, which is created if there is none. -/
def getOrCreateDatabase (text : String) : CatalogTask Database := do
  checkName .database text
  syncDatabases
  match (← get).database? text with
  | some database => pure database
  | none => createUnlisted text

/-- Drops a database, if there is one of this name. -/
def dropDatabase (text : String) : CatalogTask Unit := do
  checkName .database text
  let _ ← execute (dropDatabaseText text)
  syncDatabases

/-- Learns which tables a database has. -/
def syncTables (database : Database) : CatalogTask Unit := do
  let found ← rows (showTables database)
  modify fun c => c.learnTables database (listed .table found)

/-- The table of a name, if there is one. -/
def getTable (database : Database) (text : String) : CatalogTask (Option Table) := do
  if NameKind.table.admits text then
    syncTables database
    return (← get).table? database text
  else return none

/-- All tables of a database. -/
def allTables (database : Database) : CatalogTask (List Table) := do
  syncTables database
  return (← get).tables database.id

/-- The statement that creates the table of a model. -/
def createTableText (database : String) (m : RowModel) : Except CatalogError String :=
  match Compiler.ofDatabase database >>= (·.createTable m) with
  | .ok statement => .ok statement.text
  | .error e => .error (.compile e)

/-- Creates the table of a model; there must not be one of its name. -/
def createTable (database : Database) (m : RowModel) : CatalogTask Table := do
  let text ← orFail (createTableText database.value m)
  syncTables database
  if ((← get).table? database m.table).isSome then throw (.alreadyExists .table m.table)
  let _ ← execute text
  syncTables database
  match (← get).table? database m.table with
  | some table => pure table
  | none => throw (.introspection (.missingAfterCreate .table m.table))

/-- All columns of a table, in its order. -/
def allColumns (table : Table) : CatalogTask (List (Entry Column)) := do
  let found ← rows (showColumns table)
  let columns ← orFail (found.mapM (Column.ofRow? Registry.standard))
  modify fun c => c.learnColumns table columns
  return (← get).columns table.id

/-- The first column of a name, in any letter case. -/
def getColumn (table : Table) (text : String) : CatalogTask (Option (Entry Column)) := do
  return (← allColumns table).find? fun entry => Text.sameIgnoringCase entry.value.name text

/-- All indexes of a table, by name. -/
def allIndexes (table : Table) : CatalogTask (List (Entry Index)) := do
  let found ← rows (showIndexes table)
  let indexes ← orFail (Index.ofRows found)
  modify fun c => c.learnIndexes table indexes
  return (← get).indexes table.id

/-- The first index of a name, in any letter case. -/
def getIndex (table : Table) (text : String) : CatalogTask (Option (Entry Index)) := do
  return (← allIndexes table).find? fun entry => Text.sameIgnoringCase entry.value.name text

end Catalog

end TypedSql
