/-
Reading statements that write rows.

An insert names a table, its columns and their values; an update names a table, what is assigned to
its columns, and a condition. Both are scanned as statements that read rows are. The columns and the
values of an insert are two lists of their own, and nothing but their order tells which value goes
to which column.

* `RowInsert.ofText_insert` — the text of an insert is read as its columns and their values;
* `RowUpdate.ofText_update` — the text of an update is read as its assignments.
-/
import TypedSql.Proofs.QueryReader

namespace TypedSql

open Lexeme (word mark blank space words placeholder)
open Condition

/-- An insert: a table, the columns that are written, and the values. -/
structure RowInsert where
  database : String
  table : String
  columns : List String
  values : List WrittenValue
  deriving DecidableEq, Repr

/-- An update: a table and what is assigned to its columns. Its condition is left aside. -/
structure RowUpdate where
  database : String
  table : String
  assignments : List Assignment
  deriving DecidableEq, Repr

namespace Query

/-! ### The readers -/

/-- Reads a column. -/
def column : List Piece → Option (String × List Piece)
  | .column name :: rest => some (name, rest)
  | _ => none

/-- Reads a written value: a placeholder, or a call for the server's time. -/
def writtenValue : List Piece → Option (WrittenValue × List Piece)
  | .placeholder name :: rest => some (.bound name, rest)
  | .function "UTC_TIMESTAMP" :: .openParen :: .closeParen :: rest => some (.stamp, rest)
  | _ => none

/-- Reads an assignment. -/
def assignment : List Piece → Option (Assignment × List Piece)
  | .column name :: .operator (.compare .eq) :: rest =>
    (writtenValue rest).map fun r => (⟨name, r.1⟩, r.2)
  | _ => none

/-- Reads a closing parenthesis behind what was read. -/
def closed {α : Type} : α × List Piece → Option (α × List Piece)
  | (a, .closeParen :: rest) => some (a, rest)
  | _ => none

/-- Reads a list in parentheses, in which there may be nothing. -/
def enclosed {α : Type} (one : List Piece → Option (α × List Piece)) :
    List Piece → Option (List α × List Piece)
  | .openParen :: .closeParen :: rest => some ([], rest)
  | .openParen :: rest => (list one rest).bind closed
  | _ => none

/-- Reads the end of a statement. -/
def finished : List Piece → Option Unit
  | [.function ";"] => some ()
  | _ => none

end Query

open Query

/-- Reads an insert. -/
def RowInsert.read (ps : List Piece) : Option RowInsert := do
  let ps ← keyword "INSERT" ps
  let ps ← keyword "INTO" ps
  let (database, table, ps) ← tableName ps
  let (columns, ps) ← enclosed column ps
  let ps ← keyword "VALUES" ps
  let (values, ps) ← enclosed writtenValue ps
  finished ps
  some { database, table, columns, values }

/-- The insert that a text spells. -/
def RowInsert.ofText (text : String) : Option RowInsert :=
  (Query.scan text.toList).bind RowInsert.read

/-- Reads an update, up to its condition. -/
def RowUpdate.read (ps : List Piece) : Option RowUpdate := do
  let ps ← keyword "UPDATE" ps
  let (database, table, ps) ← tableName ps
  let ps ← keyword "SET" ps
  let (assignments, ps) ← list assignment ps
  let _ ← keyword "WHERE" ps
  some { database, table, assignments }

/-- The update that a text spells. -/
def RowUpdate.ofText (text : String) : Option RowUpdate :=
  (Query.scan text.toList).bind RowUpdate.read

/-! ### Pieces of lists -/

/-- The pieces of a written value. -/
def WrittenValue.pieces (v : WrittenValue) : List Piece :=
  v.lexemes.flatMap Lexeme.pieces

/-- The pieces of an assignment. -/
def Assignment.pieces (a : Assignment) : List Piece :=
  .column a.column :: .operator (.compare .eq) :: a.value.pieces

/-- Pieces of things, with a comma between each two. -/
def Piece.listed {α : Type} (spell : α → List Piece) (as : List α) : List Piece :=
  ((as.map spell).intersperse [.comma]).flatten

theorem Query.writtenValue_pieces (v : WrittenValue) (rest : List Piece) :
    writtenValue (v.pieces ++ rest) = some (v, rest) := by
  cases v <;> rfl

theorem Query.assignment_pieces (a : Assignment) (rest : List Piece) :
    assignment (a.pieces ++ rest) = some (a, rest) := by
  rw [Assignment.pieces, List.cons_append, List.cons_append, assignment, writtenValue_pieces]
  rfl

/-- A list in parentheses is read to its end, if nothing in it begins with a closing one. -/
theorem Query.enclosed_listed {α : Type} {one : List Piece → Option (α × List Piece)}
    {spell : α → List Piece} (each : ∀ a behind, one (spell a ++ behind) = some (a, behind))
    (refused : ∀ behind, one (.closeParen :: behind) = none) (as : List α) (rest : List Piece) :
    enclosed one (.openParen :: (Piece.listed spell as ++ .closeParen :: rest)) =
      some (as, rest) := by
  cases as with
  | nil => rfl
  | cons a as =>
    have hread : list one (Piece.listed spell (a :: as) ++ .closeParen :: rest) =
        some (a :: as, .closeParen :: rest) :=
      list_spelled (List.cons_ne_nil a as) (by simp) fun b _ behind _ => each b behind
    -- the first thing in the list would be read as nothing
    have hopens : ∀ behind, Piece.listed spell (a :: as) ++ .closeParen :: rest ≠
        .closeParen :: behind := by
      intro behind heq
      have hfirst : ∃ more, Piece.listed spell (a :: as) ++ .closeParen :: rest =
          spell a ++ more := by
        cases as with
        | nil => exact ⟨.closeParen :: rest, by simp [Piece.listed]⟩
        | cons b as => exact ⟨_, by simp [Piece.listed]; rfl⟩
      obtain ⟨more, hmore⟩ := hfirst
      have hnone := refused behind
      rw [← heq, hmore, each] at hnone
      exact absurd hnone (by simp)
    rw [enclosed.eq_2 _ _ fun behind heq => hopens behind heq, hread]
    rfl

/-! ### Inserts -/

/-- The pieces of an insert behind the name of its table. -/
def insertTail (columns : List String) (values : List WrittenValue) : List Piece :=
  .openParen :: (Piece.listed (fun column => [.column column]) columns ++ .closeParen ::
    .function "VALUES" :: .openParen ::
      (Piece.listed WrittenValue.pieces values ++ [.closeParen]))

theorem RowInsert.read_pieces (database table : String) (columns : List String)
    (values : List WrittenValue) :
    RowInsert.read (.function "INSERT" :: .function "INTO" :: .column database :: .point ::
        .column table :: (insertTail columns values ++ [.semicolon])) =
      some ⟨database, table, columns, values⟩ := by
  have hcolumns : ∀ rest, enclosed column (.openParen ::
      (Piece.listed (fun column => [.column column]) columns ++ .closeParen :: rest)) =
        some (columns, rest) :=
    enclosed_listed (fun _ _ => rfl) (fun _ => rfl) columns
  have hvalues := enclosed_listed writtenValue_pieces (fun _ => rfl) values
  rw [RowInsert.read, insertTail]
  simp only [keyword_cons, Option.bind_eq_bind, Option.bind_some, Piece.point, tableName,
    List.cons_append, List.append_assoc, List.nil_append]
  rw [hcolumns]
  simp only [keyword_cons, Option.bind_some]
  rw [hvalues]
  rfl

theorem isPlain_writtenValue {v : WrittenValue}
    (h : ∀ name, v = .bound name → isParameterName name = true) :
    v.lexemes.all Lexeme.isPlain = true := by
  cases v with
  | stamp => rfl
  | bound name =>
    have hname := isIdentifierChar_of_isParameterName (h name rfl)
    simpa [WrittenValue.lexemes, Lexeme.isPlain] using hname

theorem spaced_writtenValue (v : WrittenValue) : Spaced v.lexemes := by
  cases v <;> exact .evident rfl

theorem listed_pieces {α : Type} (lexemes : α → List Lexeme) (as : List α) :
    (Lexeme.commaLines (as.map lexemes)).flatMap Lexeme.pieces =
      Piece.listed (fun a => (lexemes a).flatMap Lexeme.pieces) as := by
  rw [pieces_commaLines, List.map_map]
  rfl

/-- A value that is checked before it is written. -/
def WrittenValue.Checked (v : WrittenValue) : Prop :=
  ∀ name, v = .bound name → isParameterName name = true

section Inserts

variable {table : String} {columns : List String} {values : List WrittenValue}

/-- The lexemes of an insert behind the name of its database. -/
def insertTailLexemes (table : String) (columns : List String) (values : List WrittenValue) :
    List Lexeme :=
  [.name table, space, mark "(", blank "\n\t"] ++
    Lexeme.commaLines (columns.map fun column => [.name column]) ++
    [blank "\n", mark ")", space, word "VALUES", space, mark "(", blank "\n\t"] ++
    Lexeme.commaLines (values.map WrittenValue.lexemes) ++ [blank "\n", mark ")"]

theorem spaced_insertTail : Spaced (insertTailLexemes table columns values) := by
  have hopen : Spaced [.name table, space, mark "(", blank "\n\t"] := .evident rfl
  have hcolumns : Spaced (Lexeme.commaLines (columns.map fun column => [.name column])) :=
    .commaLines (by simpa using fun _ _ => .evident rfl)
  have hvalues : Spaced (Lexeme.commaLines (values.map WrittenValue.lexemes)) :=
    .commaLines (by simpa using fun v _ => spaced_writtenValue v)
  exact ((hopen.behind rfl hcolumns).around hvalues rfl rfl rfl).before (.evident rfl) rfl

theorem scans_insertTail (htable : NameKind.table.admits table = true)
    (hcolumns : ∀ column ∈ columns, NameKind.column.admits column = true)
    (hvalues : ∀ v ∈ values, v.Checked) :
    Scans (insertTailLexemes table columns values)
      (.column table :: insertTail columns values) := by
  have hnames : (Lexeme.commaLines (columns.map fun column => [.name column])).all Lexeme.isPlain =
      true :=
    isPlain_commaLines (by simpa using fun column h => isPlain_name (by decide) (hcolumns column h))
  have hwritten : (Lexeme.commaLines (values.map WrittenValue.lexemes)).all Lexeme.isPlain = true :=
    isPlain_commaLines (by simpa using fun v h => isPlain_writtenValue (hvalues v h))
  have plain : (insertTailLexemes table columns values).all Lexeme.isPlain = true := by
    simp only [insertTailLexemes, List.all_append, hnames, hwritten, List.all_cons,
      isPlain_name (by decide) htable]
    rfl
  have hpieces : (insertTailLexemes table columns values).flatMap Lexeme.pieces =
      .column table :: insertTail columns values := by
    have hbetween : [blank "\n", mark ")", space, word "VALUES", space, mark "(",
        blank "\n\t"].flatMap Lexeme.pieces = [.closeParen, .function "VALUES", .openParen] := rfl
    have hopen : [.name table, space, mark "(", blank "\n\t"].flatMap Lexeme.pieces =
        [.column table, .openParen] := rfl
    have hclose : [blank "\n", mark ")"].flatMap Lexeme.pieces = [.closeParen] := rfl
    simp only [insertTailLexemes, List.flatMap_append, listed_pieces, hopen, hbetween, hclose]
    simp only [insertTail, List.append_assoc, List.cons_append, List.nil_append]
    rfl
  exact hpieces ▸ scans_spaced plain spaced_insertTail

end Inserts

/-- The text of an insert is read as its columns and its values, in their order. -/
theorem RowInsert.ofText_insert {c : Compiler} {m : RowModel} {table : List Lexeme}
    (htable : c.tableLexemes m = .ok table) {written : List Assignment}
    (hcolumns : ∀ a ∈ written, NameKind.column.admits a.column = true)
    (hvalues : ∀ a ∈ written, a.value.Checked) (parameters : List Parameter) :
    RowInsert.ofText (Statement.ofBody (insertBody table written) parameters).text =
      some ⟨c.database, m.table, written.map Assignment.column, written.map Assignment.value⟩ := by
  obtain ⟨hadmits, rfl⟩ := tableLexemes_ok htable
  have hfront : Scans (words ["INSERT", "INTO"]) [.function "INSERT", .function "INTO"] :=
    scans_spaced rfl (.evident rfl)
  have htail : Scans (insertTailLexemes m.table (written.map Assignment.column)
      (written.map Assignment.value)) _ :=
    scans_insertTail hadmits (by simpa using hcolumns) (by simpa using hvalues)
  have hdatabase := isIdentifierChar_of_admits (by decide) c.valid
  have hlexemes : insertBody (Lexeme.qualified c.database m.table) written ++ [mark ";"] =
      words ["INSERT", "INTO"] ++ space :: .name c.database :: mark "." ::
        (insertTailLexemes m.table (written.map Assignment.column)
          (written.map Assignment.value) ++ [mark ";"]) := by
    simp [insertBody, insertTailLexemes, Lexeme.qualified, Function.comp_def]
  show (Query.scan (Lexeme.text (_ ++ [mark ";"])).toList).bind RowInsert.read = _
  rw [hlexemes, scan_statement hfront hdatabase htail]
  exact read_pieces _ _ _ _

/-! ### Updates -/

/-- The pieces of an update behind the name of its table, up to its condition. -/
def updateTail (assignments : List Assignment) : List Piece :=
  .function "SET" :: (Piece.listed Assignment.pieces assignments ++ [.function "WHERE"])

theorem RowUpdate.read_pieces (database table : String) {assignments : List Assignment}
    (nonempty : assignments ≠ []) (condition : List Piece) :
    RowUpdate.read (.function "UPDATE" :: .column database :: .point :: .column table ::
        (updateTail assignments ++ condition)) = some ⟨database, table, assignments⟩ := by
  have hlist : list assignment (Piece.listed Assignment.pieces assignments ++
      .function "WHERE" :: condition) = some (assignments, .function "WHERE" :: condition) :=
    list_spelled nonempty (by simp) fun a _ behind _ => assignment_pieces a behind
  rw [RowUpdate.read, updateTail]
  simp only [keyword_cons, Option.bind_eq_bind, Option.bind_some, Piece.point, tableName,
    List.cons_append, List.append_assoc, List.nil_append]
  rw [hlist]
  rfl

section Updates

variable {table : String} {written : List Assignment}

/-- The lexemes of an assignment. -/
def Assignment.lexemes (a : Assignment) : List Lexeme :=
  binary [.name a.column] (mark "=") a.value.lexemes

theorem Assignment.pieces_lexemes (a : Assignment) :
    a.lexemes.flatMap Lexeme.pieces = a.pieces := by
  simp only [lexemes, binary, List.flatMap_append]
  rfl

/-- The lexemes of an update behind the name of its database, up to its condition. -/
def updateTailLexemes (table : String) (written : List Assignment) : List Lexeme :=
  [.name table, space, word "SET", blank "\n\t"] ++
    Lexeme.commaLines (written.map Assignment.lexemes) ++ [blank "\n", word "WHERE"]

theorem scans_updateTail (htable : NameKind.table.admits table = true)
    (hcolumns : ∀ a ∈ written, NameKind.column.admits a.column = true)
    (hvalues : ∀ a ∈ written, a.value.Checked) :
    Scans (updateTailLexemes table written) (.column table :: updateTail written) := by
  have hset : Spaced [.name table, space, word "SET", blank "\n\t"] := .evident rfl
  have hassigned : Spaced (Lexeme.commaLines (written.map Assignment.lexemes)) := by
    refine .commaLines fun ls hls => ?_
    obtain ⟨a, -, rfl⟩ := List.mem_map.mp hls
    rw [Assignment.lexemes]
    cases a.value <;> exact .evident rfl
  have spaced : Spaced (updateTailLexemes table written) :=
    (hset.behind rfl hassigned).before (.evident rfl) rfl
  have hwritten : (Lexeme.commaLines (written.map Assignment.lexemes)).all Lexeme.isPlain =
      true := by
    refine isPlain_commaLines fun ls hls => ?_
    obtain ⟨a, ha, rfl⟩ := List.mem_map.mp hls
    have hequals : [space, mark "=", space].all Lexeme.isPlain = true := rfl
    rw [Assignment.lexemes, binary, List.all_append, List.all_append, hequals,
      isPlain_writtenValue (hvalues a ha), List.all_cons, isPlain_name (by decide) (hcolumns a ha)]
    rfl
  have plain : (updateTailLexemes table written).all Lexeme.isPlain = true := by
    simp only [updateTailLexemes, List.all_append, hwritten, List.all_cons,
      isPlain_name (by decide) htable]
    rfl
  have hpieces : (updateTailLexemes table written).flatMap Lexeme.pieces =
      .column table :: updateTail written := by
    have hopen : [.name table, space, word "SET", blank "\n\t"].flatMap Lexeme.pieces =
        [.column table, .function "SET"] := rfl
    have hclose : [blank "\n", word "WHERE"].flatMap Lexeme.pieces = [.function "WHERE"] := rfl
    simp only [updateTailLexemes, List.flatMap_append, listed_pieces, hopen, hclose,
      Assignment.pieces_lexemes]
    rfl
  exact hpieces ▸ scans_spaced plain spaced

end Updates

/-- The text of an update is read as its assignments, in their order. -/
theorem RowUpdate.ofText_update {c : Compiler} {m : RowModel} {table : List Lexeme}
    (htable : c.tableLexemes m = .ok table) {written : List Assignment} (nonempty : written ≠ [])
    (hcolumns : ∀ a ∈ written, NameKind.column.admits a.column = true)
    (hvalues : ∀ a ∈ written, a.value.Checked) {filter : Filter} (hf : filter.Accepted)
    {condition : List Lexeme} (hcondition : filter.condition m = .ok condition)
    (parameters : List Parameter) :
    RowUpdate.ofText (Statement.ofBody (updateBody table written condition) parameters).text =
      some ⟨c.database, m.table, written⟩ := by
  obtain ⟨hadmits, rfl⟩ := tableLexemes_ok htable
  have hfront : Scans [word "UPDATE"] [.function "UPDATE"] := scans_spaced rfl (.evident rfl)
  have hphrase := (scans_lexemes hf.isParameterName hf.sound hcondition).space_cons
  have htail := (scans_updateTail hadmits hcolumns hvalues).before hphrase rfl
  have hdatabase := isIdentifierChar_of_admits (by decide) c.valid
  have hlexemes : updateBody (Lexeme.qualified c.database m.table) written condition ++
        [mark ";"] =
      [word "UPDATE"] ++ space :: .name c.database :: mark "." ::
        (updateTailLexemes m.table written ++ space :: condition ++ [mark ";"]) := by
    simp [updateBody, updateTailLexemes, Lexeme.qualified, whereLexemes, Lexeme.joined]
    rfl
  show (Query.scan (Lexeme.text (_ ++ [mark ";"])).toList).bind RowUpdate.read = _
  rw [hlexemes, scan_statement hfront hdatabase htail]
  simpa using RowUpdate.read_pieces c.database m.table nonempty _

end TypedSql
