/-
What the program does and reports. A server is inspected by a catalog that asks through a pool; what
it found is printed only when all of it is known.
-/
import TypedSql.Catalog.Basic
import TypedSql.CommandLine.Arguments
import TypedSql.Connection.Pool

namespace TypedSql

/-- Goes on with the state and the view of an operation together. -/
def Exchange.carry {σ α : Type} (operation : Exchange σ α) (place : σ × View) :
    Dialogue Request Answer (σ × View) (Except ConnectionError α) :=
  (operation.start place.2 place.1).follow (·, place.2) fun s (result, view) =>
    .done (s, view) result

/-- Answers a question of the catalog: rows come from a reader, all else goes to a writer. -/
def Pool.serve : (q : CatalogRequest) → Exchange Pool q.Reply
  | .rows text => Pool.queryRows text
  | .execute text => Pool.execute text

namespace CommandLine

/-- What the program prints, and its exit code. -/
structure Report where
  code : UInt8
  out : String := ""
  err : String := ""
  deriving DecidableEq, Repr

/-- The report of a failure. -/
def Report.failure (code : UInt8) (message : String) : Report :=
  { code, err := "ERROR: " ++ message ++ "\n" }

/-- What an inspection found: lines to print, or what there is not. -/
inductive Finding where
  | lines (texts : List String)
  | missing (kind name : String)
  deriving DecidableEq, Repr

/-! ### Lines -/

/-- A text filled up to a width with blanks. -/
def padded (width : Nat) (text : String) : String :=
  text ++ String.ofList (List.replicate (width - text.length) ' ')

/-- The line of a column: name, declaration, host type and markers. -/
def columnLine (c : Column) : String :=
  let key := if c.isPrimary then ["primary"] else if c.isUnique then ["unique"] else []
  let markers := key ++ if c.autoIncrement then ["auto_increment"] else []
  " ".intercalate [padded 32 c.name, padded 24 c.declaration, padded 16 c.host.text,
    ",".intercalate markers]

/-- A column of an index and its order. -/
def indexColumnText (c : IndexColumn) : String :=
  match c.order with
  | some order => c.column ++ " " ++ order.keyword
  | none => c.column

/-- The line of an index: name, whether it is unique, and columns. -/
def indexLine (i : Index) : String :=
  " ".intercalate [padded 32 i.name, padded 7 (if i.isUnique then "unique" else ""),
    "(" ++ ", ".intercalate (i.columns.map indexColumnText) ++ ")"]

/-- The lines of a type declaration that was read. -/
def declarationLines (d : Declaration) : List String :=
  let length := match d.length with
    | some n => "Some(" ++ toString n.toNat ++ ")"
    | none => "None"
  ["name:        " ++ d.family, "length:      " ++ length, "host type:   " ++ d.host.text,
   "native type: " ++ d.native.label]

/-- Lines as they are printed. -/
def printed (lines : List String) : String :=
  String.join (lines.map (· ++ "\n"))

/-! ### Inspections -/

/-- Goes on with a database, if there is one of this name. -/
def withDatabase (name : String) (f : Database → CatalogTask Finding) : CatalogTask Finding := do
  match ← Catalog.getDatabase name with
  | some database => f database
  | none => return .missing "Database" name

/-- Goes on with a table, if there is one of this name. -/
def withTable (database name : String) (f : Table → CatalogTask Finding) : CatalogTask Finding :=
  withDatabase database fun database => do
    match ← Catalog.getTable database name with
    | some table => f table
    | none => return .missing "Table" name

/-- What an inspection asks of the catalog. -/
def find : Inspection → CatalogTask Finding
  | .databases => do
    return .lines ((← Catalog.allDatabases).map Entry.value)
  | .tables database => withDatabase database fun database => do
    return .lines ((← Catalog.allTables database).map fun table => table.value.name)
  | .columns database table => withTable database table fun table => do
    return .lines ((← Catalog.allColumns table).map fun entry => columnLine entry.value)
  | .indexes database table => withTable database table fun table => do
    return .lines ((← Catalog.allIndexes table).map fun entry => indexLine entry.value)

/-- The report of what an inspection came to. -/
def reportOf : Except CatalogError Finding → Report
  | .ok (.lines lines) => { code := 0, out := printed lines }
  | .ok (.missing kind name) => { code := 4, err := kind ++ " '" ++ name ++ "' not found\n" }
  | .error e => .failure (if e.isTransport then 3 else 2) e.message

/-- Inspects a server through a pool, and closes the pool, however it went. -/
def session (pool : Pool) (view : View) (what : Inspection) :
    Dialogue Request Answer (Pool × View) Report :=
  ((find what {}).through (fun q => (Pool.serve q).carry) (pool, view)).bind
    fun place (_, found) => (Pool.close.carry place).map fun _ => reportOf found

/-! ### The program -/

/-- What arguments come to: a report at once, or a session with the server. -/
inductive Plan where
  | report (r : Report)
  | session (store : Store) (pool : Pool) (what : Inspection)

/-- The program's name and version. -/
def versionText : String := "dbcore 0.1.0"

/-- The plan of an inspection. -/
def planSession (connectionString : Option String) (what : Inspection) : Plan :=
  match connectionString with
  | none => .report (.failure 2 ("No connection string. Pass --connection-string or set " ++
      Settings.connectionStringVariable))
  | some connectionString =>
    let store := Store.ofSettings { connectionString }
    match Pool.ofStore store with
    | .ok pool => .session store pool what
    | .error e => .report (.failure 2 e.message)

/-- What the program does on arguments, with the variable that stands in for a connection string. -/
def plan (args : List String) (variableValue : Option String) : Plan :=
  match readArguments none args with
  | none => .report { code := 2, err := "usage" }
  | some .version => .report { code := 0, out := printed [versionText] }
  | some (.run _ (.parseType declaration nullable)) =>
    match Declaration.read Registry.standard declaration nullable with
    | .ok d => .report { code := 0, out := printed (declarationLines d) }
    | .error e => .report (.failure 2 e.message)
  | some (.run given (.inspect what)) => planSession (given <|> variableValue) what

end CommandLine

end TypedSql
