/-
Scanning statements that read rows.

A statement is scanned as a condition is. It has two marks that conditions have no use for, the
point of a qualified name and the semicolon at its end, and its words are taken like the functions
of conditions.

* `scans_spaced` — spaced lexemes are scanned one by one;
* `scan_statement` — a statement is scanned around the name of its database;
* `scan_page` — a statement that reads a page is scanned as its words, its names, and the phrases of
  its conditions and sort keys.
-/
import TypedSql.Proofs.ConditionPhrase
import TypedSql.Proofs.Parameters

namespace TypedSql

open Lexeme (word mark blank space words placeholder)
open Condition

/-! ### The scanner -/

/-- The point between the names of a database and a table. -/
def Piece.point : Piece :=
  .function "."

/-- The end of a statement. -/
def Piece.semicolon : Piece :=
  .function ";"

namespace Query

/-- The piece that begins with a character, and what stands behind it. -/
def next (c : Char) (rest : List Char) : Option (Piece × List Char) :=
  if c = '.' then some (.point, rest)
  else if c = ';' then some (.semicolon, rest)
  else Condition.next c rest

/-- The pieces of a statement. -/
def scan : List Char → Option (List Piece)
  | [] => some []
  | c :: rest =>
    if c.isWhitespace then scan rest
    else do
      let (p, ⟨rest, _⟩) ← bounded rest (next c rest)
      let more ← scan rest
      some (p :: more)
termination_by cs => cs.length

theorem scan_next {c : Char} {cs rest : List Char} {p : Piece} (ink : c.isWhitespace = false)
    (taken : next c cs = some (p, rest)) (shorter : rest.length ≤ cs.length) :
    scan (c :: cs) = (scan rest).map (p :: ·) := by
  rw [scan.eq_2, if_neg (by simp [ink]), taken, bounded_some shorter, Option.bind_eq_bind,
    Option.bind_some]
  dsimp only
  cases scan rest <;> rfl

theorem scan_point (rest : List Char) : scan ('.' :: rest) = (scan rest).map (.point :: ·) :=
  scan_next (by decide) rfl (Nat.le_refl _)

theorem scan_semicolon (rest : List Char) :
    scan (';' :: rest) = (scan rest).map (.semicolon :: ·) :=
  scan_next (by decide) rfl (Nat.le_refl _)

/-- What begins a piece of a condition begins the same piece of a statement. -/
theorem next_of_condition {c : Char} {cs rest : List Char} {p : Piece}
    (h : Condition.next c cs = some (p, rest)) : next c cs = some (p, rest) := by
  have hpoint : c ≠ '.' := by
    rintro rfl
    cases h
  have hsemicolon : c ≠ ';' := by
    rintro rfl
    cases h
  rw [next, if_neg hpoint, if_neg hsemicolon, h]

theorem scan_of_leads {cs rest : List Char} {ps : List Piece} (h : Leads cs ps rest) :
    scan cs = (scan rest).map (ps ++ ·) := by
  induction h with
  | nil cs => simp
  | blank white _ ih => rw [scan.eq_2, if_pos white, ih]
  | piece ink taken shorter _ ih =>
    rw [scan_next ink (next_of_condition taken) shorter, ih, Option.map_map]
    rfl

end Query

/-! ### Spaced lexemes -/

/-- The marks that are pieces of conditions. -/
def Piece.marks : List (String × Piece) :=
  [("(", .openParen), (")", .closeParen), (",", .comma), ("=", .operator (.compare .eq)),
   ("!=", .operator (.compare .ne)), ("<", .operator (.compare .lt)),
   ("<=", .operator (.compare .le)), (">", .operator (.compare .gt)),
   (">=", .operator (.compare .ge))]

namespace Lexeme

/-- The pieces of a lexeme other than a number or a pattern: none, or one. -/
def pieces : Lexeme → List Piece
  | word text => [.ofWord text.toList]
  | mark text => (Piece.marks.lookup text).toList
  | name text => [.column text]
  | placeholder parameter => [.placeholder parameter]
  | _ => []

/-- Whether a lexeme is white space or is scanned as its piece. -/
def isPlain : Lexeme → Bool
  | blank text => text.toList.all Char.isWhitespace && text.toList.head?.any enders.contains
  | word text => isWord text
  | mark text => (Piece.marks.map Prod.fst).contains text
  | name text | placeholder text => text.toList.all Text.isIdentifierChar
  | _ => false

end Lexeme

theorem Condition.leads_blank {text rest : List Char} {more : List Char} {ps : List Piece}
    (white : ∀ c ∈ text, c.isWhitespace = true) (behind : Leads more ps rest) :
    Leads (text ++ more) ps rest := by
  induction text with
  | nil => exact behind
  | cons c text ih =>
    exact .blank (white c (by simp)) (ih fun d hd => white d (by simp [hd]))

namespace Lexeme

theorem mem_of_isClosed {text : String} (plain : (mark text).isPlain = true)
    (closed : (mark text).isClosed = true) : text = "(" ∨ text = ")" ∨ text = "," := by
  simp only [isClosed, List.contains_iff_mem, List.mem_cons, List.not_mem_nil, or_false] at closed
  obtain h | h | h | rfl := closed
  · exact .inl h
  · exact .inr (.inl h)
  · exact .inr (.inr h)
  · exact absurd plain (by decide)

/-- A closed lexeme ends what stands in front of it. -/
theorem ends_of_isClosed {l : Lexeme} (plain : l.isPlain = true) (closed : l.isClosed = true)
    (more : List Char) : Ends (l.spell.toList ++ more) := by
  cases l with
  | blank text =>
    rw [isPlain, Bool.and_eq_true] at plain
    obtain ⟨c, hc, hends⟩ := (Option.any_eq_true _ _).mp plain.2
    intro d hd
    rw [spell, List.head?_append, hc, Option.some_or, Option.mem_some_iff] at hd
    simpa [hd] using hends
  | mark text =>
    obtain rfl | rfl | rfl := mem_of_isClosed plain closed <;> exact ends_cons.mpr (by decide)
  | _ => cases closed

/-- What stands behind a closed lexeme begins anew. -/
theorem leads_of_isClosed {l : Lexeme} (plain : l.isPlain = true) (closed : l.isClosed = true)
    {more rest : List Char} {ps : List Piece} (behind : Leads more ps rest) :
    Leads (l.spell.toList ++ more) (l.pieces ++ ps) rest := by
  cases l with
  | blank text =>
    rw [isPlain, Bool.and_eq_true, List.all_eq_true] at plain
    exact leads_blank plain.1 behind
  | mark text =>
    obtain rfl | rfl | rfl := mem_of_isClosed plain closed <;>
      exact .piece (by decide) rfl (Nat.le_refl _) behind
  | _ => cases closed

/-- A lexeme that is not closed is one piece, up to what ends it. -/
theorem takes_of_isPlain {l : Lexeme} (plain : l.isPlain = true) (opens : l.isClosed = false) :
    ∃ p, l.pieces = [p] ∧ Takes l.spell.toList p := by
  cases l with
  | word text => exact ⟨_, rfl, takes_word plain⟩
  | name text => exact ⟨_, rfl, takes_name (by simpa [isPlain] using plain)⟩
  | placeholder text => exact ⟨_, rfl, takes_placeholder (by simpa [isPlain] using plain)⟩
  | mark text =>
    have known : text ∈ Piece.marks.map Prod.fst := by simpa [isPlain] using plain
    have operator : ∃ op : Comparison, text = op.operator := by
      simp only [Piece.marks, List.map_cons, List.map_nil, List.mem_cons, List.not_mem_nil,
        or_false] at known
      obtain rfl | rfl | rfl | rfl | rfl | rfl | rfl | rfl | rfl := known
      · cases opens
      · cases opens
      · cases opens
      · exact ⟨.eq, rfl⟩
      · exact ⟨.ne, rfl⟩
      · exact ⟨.lt, rfl⟩
      · exact ⟨.le, rfl⟩
      · exact ⟨.gt, rfl⟩
      · exact ⟨.ge, rfl⟩
    obtain ⟨op, rfl⟩ := operator
    exact ⟨.operator (.compare op), by cases op <;> rfl, takes_operator op⟩
  | blank text => cases opens
  | _ => cases plain

/-- Next to each other, two lexemes other than points stay two only where one of them is closed. -/
theorem isClosed_of_apart {l l' : Lexeme} (plain : l.isPlain = true) (plain' : l'.isPlain = true)
    (apart : l.apart l' = true) (opens : l.isClosed = false) : l'.isClosed = true := by
  have hpoint : ∀ {k : Lexeme}, k.isPlain = true → k ≠ mark "." := by
    rintro k hk rfl
    exact absurd hk (by decide)
  simpa [Lexeme.apart, opens, hpoint plain, hpoint plain'] using apart

end Lexeme

theorem scans_spaced {ls : List Lexeme} (plain : ls.all Lexeme.isPlain = true)
    (spaced : Spaced ls) : Scans ls (ls.flatMap Lexeme.pieces) := by
  intro rest hrest
  induction ls with
  | nil => exact .nil rest
  | cons l ls ih =>
    rw [List.all_cons, Bool.and_eq_true] at plain
    obtain ⟨hl, hls⟩ := plain
    have behind := ih hls spaced.tail
    rw [Lexeme.toList_text_cons, List.append_assoc, List.flatMap_cons]
    cases hclosed : l.isClosed with
    | true => exact Lexeme.leads_of_isClosed hl hclosed behind
    | false =>
      obtain ⟨p, hp, htakes⟩ := Lexeme.takes_of_isPlain hl hclosed
      -- the piece ends where the next lexeme begins, or with the list
      have hends : Ends ((Lexeme.text ls).toList ++ rest) := by
        cases ls with
        | nil => exact hrest
        | cons l' ls =>
          have hl' : l'.isPlain = true := by
            rw [List.all_cons, Bool.and_eq_true] at hls
            exact hls.1
          have hapart := (List.isChain_cons_cons.mp spaced).1
          rw [Lexeme.toList_text_cons, List.append_assoc]
          exact Lexeme.ends_of_isClosed hl' (Lexeme.isClosed_of_apart hl hl' hapart hclosed) _
      rw [hp]
      exact (htakes.leads hends).append behind

/-- What stands behind begins with a closed lexeme. -/
theorem Condition.Scans.before {xs ys : List Lexeme} {ps qs : List Piece} (h : Scans xs ps)
    (h' : Scans ys qs)
    (opens : ys.head?.any (fun l => l.isPlain && l.isClosed) = true) :
    Scans (xs ++ ys) (ps ++ qs) := by
  intro rest hrest
  obtain ⟨l, hl, hopens⟩ := (Option.any_eq_true _ _).mp opens
  obtain ⟨more, rfl⟩ := List.head?_eq_some_iff.mp hl
  rw [Bool.and_eq_true] at hopens
  have hends : Ends ((Lexeme.text (l :: more)).toList ++ rest) := by
    rw [Lexeme.toList_text_cons, List.append_assoc]
    exact Lexeme.ends_of_isClosed hopens.1 hopens.2 _
  rw [Lexeme.text_append, String.toList_append, List.append_assoc]
  exact (h _ hends).append (h' rest hrest)

/-! ### Statements that read a page -/

theorem isPlain_name {kind : NameKind} (notVariable : kind ≠ .var) {name : String}
    (h : kind.admits name = true) : (Lexeme.name name).isPlain = true :=
  List.all_eq_true.mpr (isIdentifierChar_of_admits notVariable h)

namespace Phrase

/-- The condition that a row is on a page. -/
def page (key : String) : Phrase :=
  let start := leaf (.placeholder startName)
  let direction := leaf (.placeholder ascendingName)
  let column := leaf (.column key)
  let upwards := binary .and direction (binary (.compare .gt) column start)
  let downwards := binary .and (not direction) (binary (.compare .lt) column start)
  group (binary .or (binary .or (nullTest false start) (group upwards)) (group downwards))

/-- The condition that a row is on a page and passes a filter. -/
def filteredPage (filter : Option Phrase) (key : String) : Phrase :=
  match filter with
  | none => page key
  | some t => binary .and t (page key)

end Phrase

namespace Query

/-- The pieces of a sort key that counts where a condition holds. -/
def sortKeyPieces (condition value : Phrase) (order : SortOrder) : List Piece :=
  [.function "CASE", .function "WHEN"] ++ condition.pieces ++ .function "THEN" :: value.pieces ++
    [.function "END", .function order.keyword]

/-- The pieces behind the condition of a page. -/
def pageEnd (key : String) : List Piece :=
  let direction : Phrase := .leaf (.placeholder ascendingName)
  let column : Phrase := .leaf (.column key)
  [.function "ORDER", .function "BY"] ++ sortKeyPieces direction column .ascending ++
    .comma :: sortKeyPieces (.not direction) column .descending ++
    [.function "LIMIT", .placeholder countName]

/-- The lexemes behind the condition of a page. -/
def pageEndLexemes (key : String) : List Lexeme :=
  (RowOrder.byPage key).lexemes ++ [blank "\n", word "LIMIT", space, placeholder countName]

theorem scans_page {key : String} (h : NameKind.column.admits key = true) :
    Scans (pageCondition key ++ pageEndLexemes key) ((Phrase.page key).pieces ++ pageEnd key) := by
  have hkey := isPlain_name (by decide) h
  have spaced : Spaced (pageCondition key ++ pageEndLexemes key) := .evident rfl
  -- the key's column is the one lexeme that is not fixed
  have plain : (pageCondition key ++ pageEndLexemes key).all Lexeme.isPlain = true := by
    simp only [pageCondition, pageEndLexemes, RowOrder.lexemes, pageSortKey, Lexeme.commaLines,
      Lexeme.joined, List.intersperse, List.flatten_cons, List.flatten_nil, List.all_append,
      List.all_cons, List.all_nil, hkey]
    rfl
  exact scans_spaced plain spaced

/-- The lexemes of a table's name behind the point, and of what follows. -/
def pageTail (table : String) (conditions : List (List Lexeme)) (key : String) : List Lexeme :=
  .name table :: (whereLexemes (conditions ++ [pageCondition key]) ++ pageEndLexemes key)

/-- A filter is scanned as its phrase; there may be none. -/
def Filters (conditions : List (List Lexeme)) (filter : Option Phrase) : Prop :=
  List.Forall₂ (fun ls (t : Phrase) => Scans ls t.pieces) conditions filter.toList

theorem scans_pageTail {table key : String} {conditions : List (List Lexeme)}
    {filter : Option Phrase} (htable : NameKind.table.admits table = true)
    (hkey : NameKind.column.admits key = true) (hfilter : Filters conditions filter) :
    Scans (pageTail table conditions key)
      (.column table :: .function "WHERE" :: ((Phrase.filteredPage filter key).pieces ++
        pageEnd key)) := by
  have hpage := (scans_page hkey).space_cons
  have hname : Scans [.name table] [.column table] :=
    scans_name (isIdentifierChar_of_admits (by decide) htable)
  have hwhere : Scans [blank "\n", word "WHERE"] [.function "WHERE"] :=
    scans_spaced rfl (.evident rfl)
  have hbegin := hname.before hwhere rfl
  cases filter with
  | none =>
    obtain rfl : conditions = [] := List.forall₂_nil_right_iff.mp hfilter
    exact hbegin.before hpage rfl
  | some t =>
    obtain ⟨condition, rest, hcondition, hrest, rfl⟩ := List.forall₂_cons_right_iff.mp hfilter
    obtain rfl : rest = [] := List.forall₂_nil_right_iff.mp hrest
    have hand : Scans [blank "\n\t", word "AND"] [.operator .and] :=
      scans_spaced rfl (.evident rfl)
    have hall := (hbegin.before hcondition.space_cons rfl).before (hand.before hpage rfl) rfl
    have hlexemes : pageTail table [condition] key =
        [.name table] ++ [blank "\n", word "WHERE"] ++ space :: condition ++
          ([blank "\n\t", word "AND"] ++ space :: (pageCondition key ++ pageEndLexemes key)) := by
      simp [pageTail, whereLexemes, Lexeme.joined]
    rw [hlexemes, Phrase.filteredPage, Phrase.pieces]
    simpa using hall

/-- The lexemes of what is read. -/
def pageFront (items : List SelectItem) : List Lexeme :=
  [word "SELECT", blank "\n\t"] ++ Lexeme.commaLines (items.map SelectItem.lexemes) ++
    [blank "\n", word "FROM"]

/-- The pieces of the columns that are read. -/
def itemPieces (items : List SelectItem) : List Piece :=
  (Lexeme.commaLines (items.map SelectItem.lexemes)).flatMap Lexeme.pieces

theorem isPlain_commaLines {parts : List (List Lexeme)}
    (h : ∀ ls ∈ parts, ls.all Lexeme.isPlain = true) :
    (Lexeme.commaLines parts).all Lexeme.isPlain = true := by
  have hseparator : [mark ",", blank "\n\t"].all Lexeme.isPlain = true := rfl
  refine Lexeme.joined_induction (P := fun ls => ls.all Lexeme.isPlain = true) rfl ?_ h
  intro xs ys hxs hys
  rw [List.all_append, List.all_append, hxs, hseparator, hys]
  rfl

theorem isPlain_selectItem {f : Field} {item : SelectItem} (h : SelectItem.ofField f = .ok item) :
    item.lexemes.all Lexeme.isPlain = true := by
  obtain ⟨-, hcolumn, -, hproperty⟩ := selectItem_ok h
  have hname := isPlain_name (by decide) hcolumn
  rw [SelectItem.lexemes.eq_def]
  split
  · simp [hname]
  · rename_i property hsome
    have hfixed : [space, word "AS", space].all Lexeme.isPlain = true := rfl
    have halias := isPlain_name (by decide) (hproperty property hsome)
    simp [hname, halias] at hfixed ⊢
    exact hfixed

theorem scans_pageFront {items : List SelectItem}
    (h : ∀ i ∈ items, i.lexemes.all Lexeme.isPlain = true) :
    Scans (pageFront items) (.function "SELECT" :: (itemPieces items ++ [.function "FROM"])) := by
  have hselect : Spaced [word "SELECT", blank "\n\t"] := .evident rfl
  have hitems : Spaced (Lexeme.commaLines (items.map SelectItem.lexemes)) :=
    .commaLines (by simpa using fun i _ => spaced_selectItem i)
  have spaced : Spaced (pageFront items) := (hselect.behind rfl hitems).before (.evident rfl) rfl
  have plain : (pageFront items).all Lexeme.isPlain = true := by
    rw [pageFront, List.all_append, List.all_append, isPlain_commaLines (by simpa using h)]
    rfl
  have hscans := scans_spaced plain spaced
  rw [pageFront, List.flatMap_append, List.flatMap_append] at hscans
  exact hscans

/-- The pieces of a statement that reads a page. -/
def pagePieces (items : List SelectItem) (database table : String) (filter : Option Phrase)
    (key : String) : List Piece :=
  .function "SELECT" :: (itemPieces items ++ .function "FROM" :: .column database :: .point ::
    .column table :: .function "WHERE" :: ((Phrase.filteredPage filter key).pieces ++
      (pageEnd key ++ [.semicolon])))

/-- The name of the database ends at a point, and no other lexeme does. -/
theorem leads_beforePoint {name : String}
    (h : ∀ c ∈ name.toList, Text.isIdentifierChar c = true) (rest : List Char) :
    Leads (' ' :: '\x60' :: (name.toList ++ '\x60' :: '.' :: rest)) [.column name]
      ('.' :: rest) := by
  have hpoint : ('.' :: rest).head? ≠ some '\x60' := by simp
  have hlength : ('.' :: rest).length ≤ (name.toList ++ '\x60' :: '.' :: rest).length := by
    simp only [List.length_append, List.length_cons]
    omega
  exact .blank (by decide) (.piece (by decide) (next_name h hpoint) hlength (.nil _))

/-- A statement is scanned around the name of its database. -/
theorem scan_statement {front tail : List Lexeme} {ps qs : List Piece} {database : String}
    (hfront : Scans front ps) (hdatabase : ∀ c ∈ database.toList, Text.isIdentifierChar c = true)
    (htail : Scans tail qs) :
    scan (Lexeme.text
        (front ++ space :: .name database :: mark "." :: (tail ++ [mark ";"]))).toList =
      some (ps ++ .column database :: .point :: (qs ++ [.semicolon])) := by
  have htext : (Lexeme.text (space :: .name database :: mark "." :: (tail ++ [mark ";"]))).toList =
      ' ' :: '\x60' :: (database.toList ++ '\x60' :: '.' ::
        ((Lexeme.text tail).toList ++ [';'])) := by
    simp [Lexeme.toList_text_cons, Lexeme.text_append, Lexeme.spell, space]
  have hspace : ∀ rest, Ends (' ' :: rest) := fun rest => ends_cons.mpr (by decide)
  have hbegin := fun rest => hfront (' ' :: rest) (hspace rest)
  have hend := htail [';'] (ends_cons.mpr (by decide))
  rw [Lexeme.text_append, String.toList_append, htext,
    scan_of_leads ((hbegin _).append (leads_beforePoint hdatabase _)), scan_point,
    scan_of_leads hend, scan_semicolon, scan.eq_1]
  simp

/-- The text that reads a page is scanned as the words and names of the statement and the phrases of
its conditions and sort keys. -/
theorem scan_page {c : Compiler} {m : RowModel} {items : List SelectItem} {table : List Lexeme}
    {conditions : List (List Lexeme)} {filter : Option Phrase} {key : String}
    (hhead : c.selectHead m = .ok (items, table)) (hkey : NameKind.column.admits key = true)
    (hfilter : Filters conditions filter) :
    scan (Lexeme.text (Select.body ⟨items, table, conditions ++ [pageCondition key], .byPage key⟩ ++
      [mark ";"])).toList = some (pagePieces items c.database m.table filter key) := by
  obtain ⟨-, hitems, htable⟩ := selectHead_ok hhead
  obtain ⟨hadmits, rfl⟩ := tableLexemes_ok htable
  have hplain : ∀ i ∈ items, i.lexemes.all Lexeme.isPlain = true := by
    intro i hi
    obtain ⟨f, -, hitem⟩ := exists_mem_of_forall₂ hitems hi
    exact isPlain_selectItem hitem
  have hlexemes : Select.body ⟨items, Lexeme.qualified c.database m.table,
        conditions ++ [pageCondition key], .byPage key⟩ ++ [mark ";"] =
      pageFront items ++ space :: .name c.database :: mark "." ::
        (pageTail m.table conditions key ++ [mark ";"]) := by
    simp [Select.body, pageFront, pageTail, pageEndLexemes, Lexeme.qualified]
  have hdatabase := isIdentifierChar_of_admits (by decide) c.valid
  rw [hlexemes, scan_statement (scans_pageFront hplain) hdatabase
    (scans_pageTail hadmits hkey hfilter)]
  simp [pagePieces]

end Query

end TypedSql
