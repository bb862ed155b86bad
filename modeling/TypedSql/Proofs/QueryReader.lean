/-
Reading statements that read rows.

A statement that reads rows names the columns to show and the table, and has a condition, sort keys
that count where a condition of their own holds, and a limit. The phrases in it are read as
conditions are, up to the word behind them.

* `read_pagePieces` — the pieces of a statement that reads a page are read as this statement, if the
  filter's phrase is well grouped and binds at least as tightly as `AND`;
* `Query.ofText_selectPage` — so is the text of every page of a filter that keeps its grouping.
-/
import TypedSql.Proofs.Grouping
import TypedSql.Proofs.QueryScanner

namespace TypedSql

open Lexeme (word mark blank space words placeholder)
open Condition

/-- A value that rows are sorted by where a condition holds; elsewhere the key is NULL. -/
structure SortKey where
  condition : Phrase
  value : Phrase
  order : SortOrder

/-- A statement that reads rows. -/
structure Query where
  items : List SelectItem
  database : String
  table : String
  condition : Phrase
  keys : List SortKey
  /-- The parameter that limits the number of rows. -/
  limit : String

namespace Query

/-! ### The reader -/

/-- Reads a word. -/
def keyword (text : String) : List Piece → Option (List Piece)
  | .function name :: rest => if name = text then some rest else none
  | _ => none

/-- Reads one thing or more, with a comma between each two. -/
def list {α : Type} (one : List Piece → Option (α × List Piece)) (ps : List Piece) :
    Option (List α × List Piece) := do
  let (first, ⟨rest, hrest⟩) ← bounded ps (one ps)
  match rest, hrest with
  | .comma :: behind, _ => do
    let (more, behind) ← list one behind
    some (first :: more, behind)
  | rest, _ => some ([first], rest)
termination_by ps.length
decreasing_by
  rename_i hbehind
  exact hbehind

/-- Reads a column to show. -/
def item : List Piece → Option (SelectItem × List Piece)
  | .column column :: .function "AS" :: .column property :: rest =>
    some (⟨column, some property⟩, rest)
  | .column column :: rest => some (⟨column, none⟩, rest)
  | _ => none

/-- Reads the name of a table. -/
def tableName : List Piece → Option (String × String × List Piece)
  | .column database :: .function "." :: .column table :: rest => some (database, table, rest)
  | _ => none

/-- Reads a direction. -/
def direction : List Piece → Option (SortOrder × List Piece)
  | .function "ASC" :: rest => some (.ascending, rest)
  | .function "DESC" :: rest => some (.descending, rest)
  | _ => none

/-- Reads a sort key. -/
def sortKey (ps : List Piece) : Option (SortKey × List Piece) := do
  let ps ← keyword "CASE" ps
  let ps ← keyword "WHEN" ps
  let (condition, ps) ← reading 4 ps
  let ps ← keyword "THEN" ps
  let (value, ps) ← reading 4 ps
  let ps ← keyword "END" ps
  let (order, ps) ← direction ps
  some (⟨condition, value, order⟩, ps)

/-- Reads a limit and the end of the statement. -/
def limitEnd : List Piece → Option String
  | [.function "LIMIT", .placeholder name, .function ";"] => some name
  | _ => none

/-- Reads a statement. -/
def read (ps : List Piece) : Option Query := do
  let ps ← keyword "SELECT" ps
  let (items, ps) ← list item ps
  let ps ← keyword "FROM" ps
  let (database, table, ps) ← tableName ps
  let ps ← keyword "WHERE" ps
  let (condition, ps) ← reading 4 ps
  let ps ← keyword "ORDER" ps
  let ps ← keyword "BY" ps
  let (keys, ps) ← list sortKey ps
  let limit ← limitEnd ps
  some { items, database, table, condition, keys, limit }

/-- The statement that a text spells. -/
def ofText (text : String) : Option Query :=
  (scan text.toList).bind read

/-! ### What is read -/

section Lists

variable {α : Type} {one : List Piece → Option (α × List Piece)} {ps rest : List Piece} {a : α}

theorem list_of_comma (h : one ps = some (a, .comma :: rest))
    (shorter : (Piece.comma :: rest).length ≤ ps.length) :
    list one ps = (list one rest).map fun r => (a :: r.1, r.2) := by
  rw [list, h, bounded_some shorter, Option.bind_eq_bind, Option.bind_some]
  dsimp only
  cases list one rest <;> rfl

theorem list_of_stop (h : one ps = some (a, rest)) (shorter : rest.length ≤ ps.length)
    (stops : rest.head? ≠ some .comma) : list one ps = some ([a], rest) := by
  rw [list, h, bounded_some shorter, Option.bind_eq_bind, Option.bind_some]
  dsimp only
  split
  · exact absurd rfl stops
  · rfl

/-- Things are read one after the other, up to what is no comma. -/
theorem list_spelled {spell : α → List Piece} {as : List α} (nonempty : as ≠ [])
    (stops : rest.head? ≠ some .comma)
    (each : ∀ a ∈ as, ∀ behind, behind = rest ∨ behind.head? = some .comma →
      one (spell a ++ behind) = some (a, behind)) :
    list one (((as.map spell).intersperse [.comma]).flatten ++ rest) = some (as, rest) := by
  induction as with
  | nil => exact absurd rfl nonempty
  | cons a as ih =>
    cases as with
    | nil =>
      have hread := each a (by simp) rest (.inl rfl)
      simpa using list_of_stop hread (by simp) stops
    | cons b as =>
      have hmore := ih (by simp) fun c hc => each c (by simp [hc])
      have hspelled : (((a :: b :: as).map spell).intersperse [.comma]).flatten ++ rest =
          spell a ++ .comma ::
            ((((b :: as).map spell).intersperse [.comma]).flatten ++ rest) := by
        simp
      have hread := fun behind => each a (by simp) (.comma :: behind) (.inr rfl)
      rw [hspelled, list_of_comma (hread _) (by simp), hmore]
      rfl

end Lists

theorem keyword_cons (text : String) (rest : List Piece) :
    keyword text (.function text :: rest) = some rest :=
  if_pos rfl

/-- The pieces of lists of lexemes with a comma between each two. -/
theorem pieces_commaLines (parts : List (List Lexeme)) :
    (Lexeme.commaLines parts).flatMap Lexeme.pieces =
      ((parts.map (List.flatMap Lexeme.pieces)).intersperse [.comma]).flatten := by
  induction parts with
  | nil => rfl
  | cons first rest ih =>
    cases rest with
    | nil => simp [Lexeme.commaLines, Lexeme.joined]
    | cons second rest =>
      have hseparator : [mark ",", blank "\n\t"].flatMap Lexeme.pieces = [.comma] := rfl
      rw [Lexeme.commaLines] at ih ⊢
      rw [Lexeme.joined_cons_cons, List.flatMap_append, List.flatMap_append, hseparator, ih]
      simp

theorem item_pieces (i : SelectItem) {rest : List Piece}
    (h : ∀ property more, rest ≠ .function "AS" :: .column property :: more) :
    item (i.lexemes.flatMap Lexeme.pieces ++ rest) = some (i, rest) := by
  obtain ⟨column, property⟩ := i
  cases property with
  | none =>
    show item (.column column :: rest) = _
    rw [item.eq_def]
    split
    · rename_i heq
      exact absurd (List.cons.inj heq).2 (h _ _)
    · rename_i heq
      obtain ⟨hcolumn, rfl⟩ := List.cons.inj heq
      rw [Piece.column.inj hcolumn]
    · rename_i hother
      exact absurd rfl (hother column rest)
  | some property => rfl

theorem list_items {items : List SelectItem} (nonempty : items ≠ []) (rest : List Piece) :
    list item (itemPieces items ++ .function "FROM" :: rest) =
      some (items, .function "FROM" :: rest) := by
  rw [itemPieces, pieces_commaLines, List.map_map]
  refine list_spelled nonempty (by simp) fun i _ behind hbehind => item_pieces i ?_
  rintro property more rfl
  rcases hbehind with heq | hcomma
  · exact absurd heq (by simp)
  · exact absurd hcomma (by simp)

/-- Up to a piece that is no operator, a well-grouped phrase is read to its end. -/
theorem reading_pieces {t : Phrase} (h : t.WellGrouped) {p : Piece} (hp : p.level? = none)
    (rest : List Piece) : reading 4 (t.pieces ++ p :: rest) = some (t, p :: rest) :=
  (readsBack_of_wellGrouped h).whole hp rest

theorem sortKey_pieces {condition value : Phrase} (hcondition : condition.WellGrouped)
    (hvalue : value.WellGrouped) (order : SortOrder) (rest : List Piece) :
    sortKey (sortKeyPieces condition value order ++ rest) =
      some (⟨condition, value, order⟩, rest) := by
  have hdirection : direction (.function order.keyword :: rest) = some (order, rest) := by
    cases order <;> rfl
  have hspelled : sortKeyPieces condition value order ++ rest =
      .function "CASE" :: .function "WHEN" :: (condition.pieces ++ .function "THEN" ::
        (value.pieces ++ .function "END" :: .function order.keyword :: rest)) := by
    simp [sortKeyPieces]
  rw [hspelled, sortKey]
  simp only [keyword_cons, Option.bind_eq_bind, Option.bind_some]
  rw [reading_pieces hcondition rfl]
  simp only [keyword_cons, Option.bind_some]
  rw [reading_pieces hvalue rfl]
  simp only [keyword_cons, Option.bind_some, hdirection]

/-- The sort keys of a page: the key's column, upwards and then downwards, each of which counts in
one direction only. -/
def pageKeys (key : String) : List SortKey :=
  let direction : Phrase := .leaf (.placeholder ascendingName)
  let column : Phrase := .leaf (.column key)
  [⟨direction, column, .ascending⟩, ⟨.not direction, column, .descending⟩]

/-- The spelling of a sort key. -/
def spellKey (k : SortKey) : List Piece :=
  sortKeyPieces k.condition k.value k.order

theorem list_pageKeys (key : String) :
    ∃ rest, pageEnd key ++ [.semicolon] = .function "ORDER" :: .function "BY" :: rest ∧
      list sortKey rest =
        some (pageKeys key, [.function "LIMIT", .placeholder countName, .semicolon]) := by
  refine ⟨(((pageKeys key).map spellKey).intersperse [.comma]).flatten ++
    [.function "LIMIT", .placeholder countName, .semicolon], rfl, ?_⟩
  have grouped : ∀ k ∈ pageKeys key, k.condition.WellGrouped ∧ k.value.WellGrouped := by
    simp [pageKeys, Phrase.level]
  exact list_spelled (by simp [pageKeys]) (by simp) fun k hk behind _ =>
    sortKey_pieces (grouped k hk).1 (grouped k hk).2 k.order behind

end Query

namespace Phrase

theorem wellGrouped_page (key : String) : (page key).WellGrouped := by
  simp [page, level, Operator.level]

theorem wellGrouped_filteredPage {filter : Option Phrase} (key : String)
    (h : ∀ t ∈ filter, t.WellGrouped ∧ t.level ≤ 3) : (filteredPage filter key).WellGrouped := by
  cases filter with
  | none => exact wellGrouped_page key
  | some t =>
    obtain ⟨hgrouped, hlevel⟩ := h t rfl
    exact .binary hgrouped (wellGrouped_page key) hlevel (by simp [page, level, Operator.level])

end Phrase

namespace Query

/-- The statement that reads a page. -/
def ofPage (items : List SelectItem) (database table : String) (filter : Option Phrase)
    (key : String) : Query where
  items
  database
  table
  condition := .filteredPage filter key
  keys := pageKeys key
  limit := countName

theorem read_pagePieces {items : List SelectItem} (nonempty : items ≠ [])
    {filter : Option Phrase} (h : ∀ t ∈ filter, t.WellGrouped ∧ t.level ≤ 3)
    (database table key : String) :
    read (pagePieces items database table filter key) =
      some (ofPage items database table filter key) := by
  obtain ⟨behind, hbehind, hkeys⟩ := list_pageKeys key
  rw [read, pagePieces]
  simp only [keyword_cons, Option.bind_eq_bind, Option.bind_some]
  rw [list_items nonempty]
  simp only [keyword_cons, Option.bind_some, Piece.point, tableName]
  rw [hbehind, reading_pieces (Phrase.wellGrouped_filteredPage key h) rfl]
  simp only [keyword_cons, Option.bind_some, hkeys]
  rfl

/-- A filter with a negation on the right of a comparison, `A = NOT B`, cannot be read. -/
example : read (pagePieces [⟨"A", none⟩, ⟨"B", none⟩] "app" "pair" (some (.group (.binary
    (.compare .eq) (.leaf (.column "A")) (.not (.leaf (.column "B")))))) "A") = none := by
  cbv

/-- The phrase of an accepted filter is what its condition is scanned as. -/
theorem filters_phrase {m : RowModel} {filter : Option Filter} (hf : ∀ f ∈ filter, f.Accepted)
    {conditions : List (List Lexeme)} {parameters : List Parameter}
    (h : filterParts m filter = .ok (conditions, parameters)) :
    Filters conditions (filter.map fun f => f.expr.phrase .group m) := by
  obtain ⟨rfl, rfl, -⟩ | ⟨f, condition, rfl, hcondition, rfl, -⟩ := filterParts_ok h
  · exact .nil
  · have hscans := scans_lexemes (hf f rfl).isParameterName (hf f rfl).sound hcondition
    exact .cons hscans .nil

/-- The text of a page is read as the statement that reads the page, if the filter keeps its
grouping. -/
theorem ofText_selectPage {c : Compiler} {m : RowModel} {order : OrderBy} {filter : Option Filter}
    {s : Statement} (hf : ∀ f ∈ filter, f.Accepted)
    (kept : ∀ f ∈ filter, f.expr.keepsGrouping = true) (h : c.selectPage m order filter = .ok s) :
    ∃ items f, List.Forall₂ (fun f i => SelectItem.ofField f = .ok i) m.fields items ∧
      m.field? order.property = some f ∧
      ofText s.text = some (ofPage items c.database m.table
        (filter.map fun f => f.expr.phrase .group m) f.columnName) := by
  obtain ⟨f, key, items, table, conditions, parameters, ascending, start, count, hfield, hkey,
    hhead, hparts, -, -, -, rfl⟩ := Compiler.selectPage_ok h
  obtain ⟨nonempty, hitems, -⟩ := selectHead_ok hhead
  obtain ⟨rfl, hadmits⟩ := checkedColumn_ok hkey
  have hfilter := filters_phrase hf hparts
  have hgrouped : ∀ t ∈ filter.map fun f => f.expr.phrase .group m,
      t.WellGrouped ∧ t.level ≤ 3 := by
    intro t ht
    obtain ⟨g, hg, rfl⟩ := Option.mem_map.mp ht
    have hsound := (hf g hg).sound
    refine ⟨(Expr.wellGrouped_phrase hsound).mpr (kept g hg), ?_⟩
    rw [Expr.level_phrase hsound]
    exact Nat.le_succ_of_le g.expr.level_le_two
  have hne : items ≠ [] := by
    rintro rfl
    exact nonempty (List.forall₂_nil_right_iff.mp hitems)
  refine ⟨items, f, hitems, lookup_ok hfield, ?_⟩
  show (scan (Lexeme.text (_ ++ [mark ";"])).toList).bind read = _
  rw [scan_page hhead hadmits hfilter]
  exact read_pagePieces hne hgrouped _ _ _

end Query

end TypedSql
