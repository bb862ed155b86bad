/-
Lexemes that stay apart.

A statement is spelled without anything between its lexemes, so two of them could run into one. In a
spaced list none do: of each two neighbours, one is white space or a mark that ends and begins
wherever it stands, or they are the two sides of a point between names.

* `spaced_lexemes` — conditions are spaced, whatever expressions they come from;
* `placeholders_text` — so the placeholders of a spaced text are those of its lexemes.
-/
import TypedSql.Proofs.Alphabet
import TypedSql.Proofs.Segments

namespace TypedSql

open Lexeme (word mark blank space words placeholder qualified)

/-- Whether a lexeme ends wherever it stands, and another one may begin right behind it. -/
def Lexeme.isClosed : Lexeme → Bool
  | blank _ => true
  | mark text => ["(", ")", ",", ";"].contains text
  | _ => false

/-- Whether a lexeme is a name. -/
def Lexeme.isName : Lexeme → Bool
  | name _ => true
  | _ => false

/-- Whether two lexemes stay two next to each other. -/
def Lexeme.apart (l l' : Lexeme) : Bool :=
  l.isClosed || l'.isClosed || l.isName && l' == mark "." || l == mark "." && l'.isName

/-- Lexemes of which no two run into one. -/
def Spaced (ls : List Lexeme) : Prop :=
  ls.IsChain fun l l' => l.apart l' = true

/-- Whether the texts of lexemes show that they are spaced. -/
def Lexeme.areApart : List Lexeme → Bool
  | [] | [_] => true
  | l :: l' :: rest => l.apart l' && areApart (l' :: rest)

namespace Spaced

variable {xs ys : List Lexeme}

theorem evident (h : Lexeme.areApart xs = true) : Spaced xs := by
  induction xs with
  | nil => exact .nil
  | cons l ls ih =>
    cases ls with
    | nil => exact .singleton l
    | cons l' ls =>
      rw [Lexeme.areApart, Bool.and_eq_true] at h
      exact List.isChain_cons_cons.mpr ⟨h.1, ih h.2⟩

/-- What stands behind begins with a closed lexeme. -/
theorem before (h : Spaced xs) (h' : Spaced ys) (opens : ys.head?.all Lexeme.isClosed = true) :
    Spaced (xs ++ ys) := by
  refine List.isChain_append.mpr ⟨h, h', fun l _ l' hl' => ?_⟩
  rw [Option.mem_def.mp hl', Option.all_some] at opens
  simp [Lexeme.apart, opens]

/-- What stands in front ends with a closed lexeme. -/
theorem behind (h : Spaced xs) (closes : xs.getLast?.all Lexeme.isClosed = true) (h' : Spaced ys) :
    Spaced (xs ++ ys) := by
  refine List.isChain_append.mpr ⟨h, h', fun l hl l' _ => ?_⟩
  rw [Option.mem_def.mp hl, Option.all_some] at closes
  simp [Lexeme.apart, closes]

/-- What stands between two lists begins and ends with a closed lexeme. -/
theorem around {between : List Lexeme} (h : Spaced xs) (h' : Spaced ys)
    (hbetween : Lexeme.areApart between = true)
    (opens : between.head?.any Lexeme.isClosed = true)
    (closes : between.getLast?.any Lexeme.isClosed = true) : Spaced (xs ++ between ++ ys) := by
  obtain ⟨l, hl, hopens⟩ := (Option.any_eq_true _ _).mp opens
  obtain ⟨l', hl', hcloses⟩ := (Option.any_eq_true _ _).mp closes
  refine behind (h.before (.evident hbetween) ?_) ?_ h'
  · rw [hl, Option.all_some, hopens]
  · rw [List.getLast?_append, hl', Option.some_or, Option.all_some, hcloses]

theorem joined {separator : List Lexeme} (hseparator : Lexeme.areApart separator = true)
    (opens : separator.head?.any Lexeme.isClosed = true)
    (closes : separator.getLast?.any Lexeme.isClosed = true) {parts : List (List Lexeme)}
    (h : ∀ ls ∈ parts, Spaced ls) : Spaced (Lexeme.joined separator parts) :=
  Lexeme.joined_induction (evident rfl) (fun hx hy => hx.around hy hseparator opens closes) h

theorem commaSeparated {parts : List (List Lexeme)} (h : ∀ ls ∈ parts, Spaced ls) :
    Spaced (Lexeme.commaSeparated parts) :=
  joined rfl rfl rfl h

theorem commaLines {parts : List (List Lexeme)} (h : ∀ ls ∈ parts, Spaced ls) :
    Spaced (Lexeme.commaLines parts) :=
  joined rfl rfl rfl h

theorem parenthesized (h : Spaced xs) : Spaced (mark "(" :: (xs ++ [mark ")"])) :=
  have hopen : Spaced [mark "("] := evident rfl
  hopen.behind rfl (h.before (evident rfl) rfl)

theorem sqlCall (function : String) {parts : List (List Lexeme)} (h : ∀ ls ∈ parts, Spaced ls) :
    Spaced (TypedSql.sqlCall function parts) :=
  have hfunction : Spaced [word function] := evident rfl
  hfunction.before (commaSeparated h).parenthesized rfl

theorem binary (h : Spaced xs) (operator : Lexeme) (h' : Spaced ys) :
    Spaced (TypedSql.binary xs operator ys) :=
  h.around h' (by simp [Lexeme.areApart, Lexeme.apart, Lexeme.isClosed, space]) rfl rfl

end Spaced

/-! ### Conditions -/

theorem spaced_nullTest {xs : List Lexeme} (h : Spaced xs) (negated : Bool) :
    Spaced (xs ++ nullTest negated) := by
  cases negated with
  | false => exact h.before (.evident rfl) rfl
  | true => exact h.before (.evident rfl) rfl

theorem spaced_literal {value : Literal} {ls : List Lexeme} (h : value.lexemes = .ok ls) :
    Spaced ls := by
  cases value with
  | text value => exact absurd h (by simp [Literal.lexemes])
  | number value =>
    rw [Literal.lexemes] at h
    split_ifs at h
    obtain rfl := Except.ok.inj h
    exact .evident rfl
  | _ =>
    obtain rfl := Except.ok.inj h
    exact .evident rfl

theorem spaced_comparison {op : Comparison} {xs inner : List Lexeme}
    {ys : Except CompileError (List Lexeme)} {rightNull : Bool}
    (h : ComparisonLexemes op xs ys rightNull inner) (first : Spaced xs)
    (second : ∀ {ls}, ys = .ok ls → Spaced ls) : Spaced inner := by
  cases h with
  | nullTest negated _ _ => exact spaced_nullTest first negated
  | binary _ hys => exact first.binary _ (second hys)

theorem spaced_method (method : Method) {receiver argument : List Lexeme}
    (hreceiver : Spaced receiver) (hargument : Spaced argument) :
    Spaced (method.lexemes receiver argument) := by
  have hany : Spaced [.anyText] := .evident rfl
  cases method with
  | contains => exact hreceiver.binary _ (.sqlCall _ (by simp [hany, hargument]))
  | startsWith => exact hreceiver.binary _ (.sqlCall _ (by simp [hany, hargument]))
  | endsWith => exact hreceiver.binary _ (.sqlCall _ (by simp [hany, hargument]))
  | equals ignoreCase =>
    cases ignoreCase with
    | false => exact hreceiver.binary _ hargument
    | true => exact (Spaced.sqlCall _ (by simpa)).binary _ (.sqlCall _ (by simpa))
  | toUpper => exact .sqlCall _ (by simpa)
  | toLower => exact .sqlCall _ (by simpa)
  | hasValue => exact spaced_nullTest hreceiver true
  | value => exact hreceiver

theorem spaced_lexemes {m : RowModel} (e : Expr) {ls : List Lexeme} (h : e.lexemes m = .ok ls) :
    Spaced ls := by
  induction e using Expr.induction generalizing ls with
  | field property =>
    obtain ⟨rfl, -⟩ := lexemes_field_ok h
    exact .evident rfl
  | param name =>
    obtain rfl := Except.ok.inj h
    exact .evident rfl
  | literal value => exact spaced_literal h
  | now clock =>
    cases clock <;> obtain rfl := Except.ok.inj h <;> exact .evident rfl
  | compare op left right ihleft ihright =>
    obtain ⟨inner, rfl, hinner⟩ := lexemes_compare_ok h
    split_ifs at hinner
    · obtain ⟨xs, hxs, hcomparison⟩ := hinner
      exact (spaced_comparison hcomparison (ihright hxs) ihleft).parenthesized
    · obtain ⟨xs, hxs, hcomparison⟩ := hinner
      exact (spaced_comparison hcomparison (ihleft hxs) ihright).parenthesized
  | logical op operands ih =>
    rw [Expr.lexemes] at h
    obtain ⟨parts, hparts, h₁⟩ := bind_eq_ok.mp h
    obtain rfl := pure_eq_ok.mp h₁
    refine Spaced.parenthesized (.joined ?_ rfl rfl fun ls hls => ?_)
    · cases op <;> rfl
    · obtain ⟨e, he, hlexemes⟩ := exists_mem_of_forall₂ (lexemesOfList_ok hparts) hls
      exact ih e he hlexemes
  | not operand ih =>
    rw [Expr.lexemes] at h
    obtain ⟨inner, hinner, h₁⟩ := bind_eq_ok.mp h
    obtain rfl := pure_eq_ok.mp h₁
    have hnot : Spaced [word "NOT", space] := .evident rfl
    exact hnot.behind rfl (ih hinner)
  | call method receiver arguments ih iharguments =>
    obtain ⟨subject, hsubject, ⟨rfl, rfl⟩ | ⟨first, rest, argument, rfl, hargument, rfl⟩⟩ :=
      lexemes_call_ok h
    · exact spaced_method _ (ih hsubject) (.evident rfl)
    · exact spaced_method _ (ih hsubject) (iharguments first (by simp) hargument)

/-! ### Statements -/

theorem spaced_where {conditions : List (List Lexeme)} (h : ∀ ls ∈ conditions, Spaced ls) :
    Spaced (whereLexemes conditions) := by
  rw [whereLexemes]
  split_ifs
  · exact .evident rfl
  · have hwhere : Spaced [blank "\n", word "WHERE", space] := .evident rfl
    exact hwhere.behind rfl (.joined rfl rfl rfl h)

/-- Conditions begin on a line of their own. -/
theorem opens_where (conditions : List (List Lexeme)) :
    (whereLexemes conditions).head?.all Lexeme.isClosed = true := by
  cases conditions <;> rfl

theorem spaced_selectItem (item : SelectItem) : Spaced item.lexemes := by
  rw [SelectItem.lexemes.eq_def]
  split
  · exact .evident rfl
  · exact .evident rfl

theorem spaced_rowOrder (order : RowOrder) : Spaced order.lexemes := by
  cases order with
  | unordered => exact .evident rfl
  | byColumn column order => exact .evident rfl
  | byPage key => exact .evident rfl

theorem opens_rowOrder (order : RowOrder) : order.lexemes.head?.all Lexeme.isClosed = true := by
  cases order <;> rfl

theorem spaced_pageCondition (key : String) : Spaced (pageCondition key) :=
  .evident rfl

section Bodies

variable {table condition : List Lexeme} {conditions : List (List Lexeme)}
  {written : List Assignment}

theorem spaced_select {s : Select} (table : Spaced s.table)
    (conditions : ∀ ls ∈ s.conditions, Spaced ls) : Spaced s.body := by
  have hselect : Spaced [word "SELECT", blank "\n\t"] := .evident rfl
  have hitems : Spaced (Lexeme.commaLines (s.items.map SelectItem.lexemes)) :=
    .commaLines (by simpa using fun i _ => spaced_selectItem i)
  exact ((((hselect.behind rfl hitems).around table rfl rfl rfl).before (spaced_where conditions)
    (opens_where _)).before (spaced_rowOrder _) (opens_rowOrder _)).before (.evident rfl) rfl

theorem spaced_count (htable : Spaced table) (h : ∀ ls ∈ conditions, Spaced ls) :
    Spaced (countBody table conditions) := by
  have hselect : Spaced [word "SELECT", space, word "COUNT", mark "(", mark "*", mark ")",
      blank "\n", word "FROM", space] := .evident rfl
  exact (hselect.behind rfl htable).before (spaced_where h) (opens_where _)

theorem spaced_insert (htable : Spaced table) : Spaced (insertBody table written) := by
  have hinsert : Spaced (words ["INSERT", "INTO"] ++ [space]) := .evident rfl
  have hnames : Spaced (Lexeme.commaLines (written.map fun a => [.name a.column])) :=
    .commaLines (by simpa using fun _ _ => .evident rfl)
  have hvalues : Spaced (Lexeme.commaLines (written.map fun a => a.value.lexemes)) :=
    .commaLines (by simpa using fun a _ => by cases a.value <;> exact .evident rfl)
  exact (((hinsert.behind rfl htable).around hnames rfl rfl rfl).around hvalues rfl rfl rfl).before
    (.evident rfl) rfl

theorem spaced_update (htable : Spaced table) (hcondition : Spaced condition) :
    Spaced (updateBody table written condition) := by
  have hupdate : Spaced [word "UPDATE", space] := .evident rfl
  have hset : Spaced (Lexeme.commaLines
      (written.map fun a => binary [.name a.column] (mark "=") a.value.lexemes)) := by
    refine .commaLines fun ls hls => ?_
    obtain ⟨a, -, rfl⟩ := List.mem_map.mp hls
    cases a.value <;> exact .evident rfl
  exact ((hupdate.behind rfl htable).around hset rfl rfl rfl).before
    (spaced_where (by simpa)) (opens_where _)

theorem spaced_delete (htable : Spaced table) (hcondition : Spaced condition) :
    Spaced (deleteBody table condition) := by
  have hdelete : Spaced (words ["DELETE", "FROM"] ++ [space]) := .evident rfl
  exact (hdelete.behind rfl htable).before (spaced_where (by simpa)) (opens_where _)

end Bodies

/-! ### Placeholders -/

/-- The name of a placeholder. -/
def Lexeme.parameter? : Lexeme → Option String
  | placeholder parameter => some parameter
  | _ => none

/-- The placeholders among lexemes, in order. -/
def Lexeme.names (ls : List Lexeme) : List String :=
  ls.filterMap parameter?

/-- The segments of a lexeme's text. -/
def Lexeme.segments : Lexeme → List Segment
  | placeholder parameter => [.placeholder parameter.toList]
  | l => l.spell.toList.map .plain

/-- Lexemes that can be told from the text that they spell. -/
structure Legible (ls : List Lexeme) : Prop where
  contained : AllContained ls
  spaced : Spaced ls

theorem Segment.textOf_append (xs ys : List Segment) : textOf (xs ++ ys) = textOf xs ++ textOf ys :=
  List.flatMap_append

theorem Segment.textOf_plain (cs : List Char) : textOf (cs.map plain) = cs := by
  simp [textOf, List.flatMap_map, spell]

theorem Segment.maximal_plain {cs : List Char} {rest : List Segment} (h : '@' ∉ cs)
    (hrest : Maximal rest) : Maximal (cs.map plain ++ rest) := by
  induction cs with
  | nil => exact hrest
  | cons c cs ih =>
    rw [List.mem_cons, not_or] at h
    exact .plain (fun hat => absurd hat.symm h.1) (ih h.2)

theorem Lexeme.textOf_segments (l : Lexeme) : Segment.textOf l.segments = l.spell.toList := by
  cases l with
  | placeholder parameter => simp [segments, Segment.textOf, Segment.spell, spell]
  | _ => exact Segment.textOf_plain _

theorem Lexeme.textOf_flatMap_segments (ls : List Lexeme) :
    Segment.textOf (ls.flatMap segments) = (Lexeme.text ls).toList := by
  induction ls with
  | nil => rfl
  | cons l ls ih =>
    rw [List.flatMap_cons, Segment.textOf_append, textOf_segments, ih, toList_text_cons]

theorem Lexeme.filterMap_segments (ls : List Lexeme) :
    (ls.flatMap segments).filterMap Segment.name? = names ls := by
  have hplain : ∀ cs : List Char, (cs.map Segment.plain).filterMap Segment.name? = [] := by
    intro cs
    rw [List.filterMap_map]
    exact List.filterMap_eq_nil_iff.mpr fun c _ => rfl
  induction ls with
  | nil => rfl
  | cons l ls ih =>
    rw [List.flatMap_cons, List.filterMap_append, ih]
    cases l with
    | placeholder parameter => simp [segments, names, parameter?, Segment.name?]
    | _ => exact congrArg (· ++ names ls) (hplain _)

/-- No name goes on in a closed lexeme. -/
theorem Lexeme.Contained.endsName {l : Lexeme} (h : l.Contained) (closed : l.isClosed = true)
    (rest : List Char) : Segment.EndsName (l.spell.toList ++ rest) := by
  have hbegins : ∀ {texts : List String} {text : String},
      texts.all (fun t => t.toList.head?.any (!Text.isIdentifierChar ·)) = true → text ∈ texts →
        Segment.EndsName (text.toList ++ rest) := by
    intro texts text htexts htext c hc
    obtain ⟨d, hd, hchar⟩ := (Option.any_eq_true _ _).mp (List.all_eq_true.mp htexts text htext)
    rw [List.head?_append, hd, Option.some_or, Option.mem_some_iff] at hc
    simpa [hc] using hchar
  cases h with
  | blank known => exact hbegins (by decide +kernel) known
  | mark known => exact hbegins (by decide +kernel) known
  | _ => exact absurd closed (by simp [isClosed])

theorem Legible.maximal {ls : List Lexeme} (h : Legible ls) {rest : List Segment}
    (hrest : Segment.Maximal rest) (hends : Segment.EndsName (Segment.textOf rest)) :
    Segment.Maximal (ls.flatMap Lexeme.segments ++ rest) := by
  obtain ⟨hcontained, hspaced⟩ := h
  induction ls with
  | nil => exact hrest
  | cons l ls ih =>
    obtain ⟨hl, hls⟩ := List.forall_mem_cons.mp hcontained
    have hmore := ih hls hspaced.tail
    rw [List.flatMap_cons, List.append_assoc]
    by_cases hplaceholder : ∃ parameter, l = placeholder parameter
    · obtain ⟨parameter, rfl⟩ := hplaceholder
      have hname : parameter.toList ≠ [] := by
        cases hl with
        | placeholder checked =>
          rw [isParameterName, Bool.and_eq_true, NameKind.admits_iff] at checked
          simpa using checked.1.1
      -- the name ends where the next lexeme begins, or with the text
      have hbehind : Segment.EndsName (Segment.textOf (ls.flatMap Lexeme.segments ++ rest)) := by
        cases ls with
        | nil => exact hends
        | cons l' ls =>
          have hapart := (List.isChain_cons_cons.mp hspaced).1
          have hclosed : l'.isClosed = true := by
            simpa [Lexeme.apart, Lexeme.isClosed, Lexeme.isName] using hapart
          rw [List.flatMap_cons, List.append_assoc, Segment.textOf_append, Lexeme.textOf_segments]
          exact (hls l' (by simp)).endsName hclosed _
      exact .placeholder hname hl.isIdentifierChar hbehind hmore
    · have hsegments : l.segments = l.spell.toList.map .plain := by
        cases l with
        | placeholder parameter => exact absurd ⟨parameter, rfl⟩ hplaceholder
        | _ => rfl
      rw [hsegments]
      refine Segment.maximal_plain (fun hat => ?_) hmore
      exact absurd (hl.isStatementChar (fun name heq => hplaceholder ⟨name, heq⟩) _ hat) (by decide)

/-- The placeholders of a text are found where they stand among the lexemes of its body. -/
def Discerned (body : List Lexeme) : Prop :=
  Segment.Maximal (body.flatMap Lexeme.segments ++ [.plain ';'])

theorem discerned_nil : Discerned [] :=
  .plain (fun h => absurd h (by decide)) .nil

theorem Legible.discerned {body : List Lexeme} (h : Legible body) : Discerned body :=
  h.maximal discerned_nil (Segment.endsName_cons.mpr (by decide))

/-- Such a text is split into the segments of its lexemes. -/
theorem Discerned.split_text {body : List Lexeme} (h : Discerned body) :
    Segment.split (Lexeme.text (body ++ [mark ";"])).toList =
      body.flatMap Lexeme.segments ++ [.plain ';'] := by
  refine Segment.split_eq_iff.mpr ⟨h, ?_⟩
  rw [Segment.textOf_append, Lexeme.textOf_flatMap_segments, Lexeme.text_append,
    String.toList_append]
  rfl

/-- The placeholders of a legible text are those among its lexemes. -/
theorem placeholders_text {body : List Lexeme} (h : Legible body) :
    placeholders (Lexeme.text (body ++ [mark ";"])) = Lexeme.names body := by
  rw [placeholders, h.discerned.split_text, List.filterMap_append, Lexeme.filterMap_segments]
  exact List.append_nil _

end TypedSql
