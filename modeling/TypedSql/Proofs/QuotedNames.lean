/-
The names between backticks in the text of a stored procedure.

The names of databases, procedures, tables, columns and aliases are checked before they are quoted.
A routine parameter has the name of a checked parameter, but behind a prefix, and its length is not
checked again: a parameter's name of 63 or 64 bytes makes one that is too long.

* `Procedure.paired_refer` — backticks stay in pairs where names stand for placeholders;
* `Procedure.paired_text` — what stands between the backticks of a procedure's text;
* `Procedure.quoted_names_iff` — when all of that passes the rule for names.
-/
import TypedSql.Proofs.ProcedureText

namespace TypedSql

open Lexeme (word mark space words qualified)

/-! ### Parts of a text with paired marks -/

namespace Paired

variable {q c : Char} {P : List Char → Prop} {xs ys : List Char}

theorem tail (h : Paired q P (c :: xs)) (hc : c ≠ q) : Paired q P xs := by
  cases h with
  | plain _ rest => exact rest
  | quoted => exact absurd rfl hc

theorem mono {Q : List Char → Prop} (h : Paired q P xs) (hsub : ∀ inside, P inside → Q inside) :
    Paired q Q xs := by
  induction h with
  | nil => exact .nil
  | plain other _ ih => exact .plain other ih
  | quoted free admitted _ ih => exact .quoted free (hsub _ admitted) ih

theorem drop (h : Paired q P (xs ++ ys)) (hfree : q ∉ xs) : Paired q P ys := by
  induction xs with
  | nil => exact h
  | cons c xs ih =>
    rw [List.mem_cons, not_or] at hfree
    exact ih (h.tail (Ne.symm hfree.1)) hfree.2

/-- A character that stands between no two marks of a pair cuts a text into two such texts. -/
theorem cut (hc : c ≠ q) (houtside : ∀ inside, P inside → c ∉ inside)
    (h : Paired q P (xs ++ c :: ys)) : Paired q P xs ∧ Paired q P ys := by
  generalize hcs : xs ++ c :: ys = cs at h
  induction h generalizing xs with
  | nil => exact absurd hcs (by simp)
  | plain other rest ih =>
    cases xs with
    | nil =>
      obtain ⟨rfl, rfl⟩ := List.cons.inj hcs
      exact ⟨.nil, rest⟩
    | cons d xs =>
      obtain ⟨rfl, htail⟩ := List.cons.inj hcs
      obtain ⟨hxs, hys⟩ := ih htail
      exact ⟨.plain other hxs, hys⟩
  | quoted free admitted rest ih =>
    cases xs with
    | nil => exact absurd (List.cons.inj hcs).1 hc
    | cons d xs =>
      obtain ⟨rfl, htail⟩ := List.cons.inj hcs
      -- the first pair ends in front of the character
      obtain ⟨more, hinside, hmore⟩ | ⟨more, rfl, hmore⟩ := List.append_eq_append_iff.mp htail
      · refine absurd ?_ (houtside _ admitted)
        cases more with
        | nil => exact absurd (List.cons.inj hmore).1 hc
        | cons d more =>
          obtain ⟨rfl, -⟩ := List.cons.inj hmore
          simp [hinside]
      · cases more with
        | nil => exact absurd (List.cons.inj hmore).1 (Ne.symm hc)
        | cons d more =>
          obtain ⟨rfl, hrest⟩ := List.cons.inj hmore
          obtain ⟨hxs, hys⟩ := ih hrest.symm
          exact ⟨.quoted free admitted hxs, hys⟩

end Paired

namespace Procedure

/-! ### Names for placeholders -/

section Names

variable {P Q : List Char → Prop} {segments : List Segment}

/-- The segments of a text that begins with no `@` begin with its characters. -/
theorem exists_segments_behind {xs ys : List Char} (hat : '@' ∉ xs)
    (h : Segment.textOf segments = xs ++ ys) :
    ∃ rest, segments = xs.map .plain ++ rest ∧ Segment.textOf rest = ys := by
  induction xs generalizing segments with
  | nil => exact ⟨segments, rfl, h⟩
  | cons c xs ih =>
    rw [List.mem_cons, not_or] at hat
    cases segments with
    | nil => exact absurd h (by simp [Segment.textOf])
    | cons s segments =>
      cases s with
      | plain d =>
        obtain ⟨rfl, htail⟩ := List.cons.inj h
        obtain ⟨rest, rfl, hrest⟩ := ih hat.2 htail
        exact ⟨rest, rfl, hrest⟩
      | placeholder name => exact absurd (List.cons.inj h).1 hat.1

theorem refer_plain (xs : List Char) (rest : List Segment) :
    (xs.map Segment.plain ++ rest).flatMap refer = xs ++ rest.flatMap refer := by
  rw [List.flatMap_append, List.flatMap_map]
  simp [refer]

/-- Backticks that stand in pairs do so where names in backticks stand for the placeholders, of which
there are none between them. -/
theorem paired_refer (houtside : ∀ inside, P inside → Q inside ∧ '@' ∉ inside)
    (hnames : ∀ name, .placeholder name ∈ segments → '\x60' ∉ name ∧ Q ("p_".toList ++ name))
    (h : Paired '\x60' P (Segment.textOf segments)) :
    Paired '\x60' Q (segments.flatMap refer) := by
  generalize htext : Segment.textOf segments = cs at h
  -- induction on the pairs: a placeholder stands between two of them
  induction h generalizing segments with
  | nil =>
    cases segments with
    | nil => exact .nil
    | cons s segments => cases s <;> exact absurd htext (by simp [Segment.spell])
  | @plain c cs other _ ih =>
    cases segments with
    | nil => exact absurd htext (by simp [Segment.textOf])
    | cons s segments =>
      have hbehind : ∀ name, .placeholder name ∈ segments →
          '\x60' ∉ name ∧ Q ("p_".toList ++ name) :=
        fun name hname => hnames name (List.mem_cons_of_mem _ hname)
      cases s with
      | plain d =>
        obtain ⟨rfl, htail⟩ := List.cons.inj htext
        exact .plain other (ih hbehind htail)
      | placeholder name =>
        obtain ⟨hfree, hadmitted⟩ := hnames name List.mem_cons_self
        have htail : Segment.textOf (name.map .plain ++ segments) = cs := by
          rw [Segment.textOf, List.flatMap_append, ← Segment.textOf, Segment.textOf_plain]
          exact (List.cons.inj htext).2
        -- the characters behind the `@` are left out again
        have hrest : Paired '\x60' Q (segments.flatMap refer) := by
          have hplain := ih (fun name' hname' => hbehind name' (by simpa using hname')) htail
          rw [refer_plain] at hplain
          exact hplain.drop hfree
        have hquoted : Paired '\x60' Q (refer (.placeholder name)) := by
          have hinside : '\x60' ∉ "p_".toList ++ name := by simpa using hfree
          simpa [refer] using Paired.quoted hinside hadmitted .nil
        exact hquoted.append hrest
  | @quoted inside cs free admitted _ ih =>
    obtain ⟨hinside, hat⟩ := houtside inside admitted
    -- without an `@`, the pair is made of plain segments
    have hcut : Segment.textOf segments = ('\x60' :: (inside ++ ['\x60'])) ++ cs := by
      simpa using htext
    obtain ⟨rest, rfl, hrest⟩ := exists_segments_behind (by simpa using hat) hcut
    rw [refer_plain]
    have hquoted := ih (fun name hname => hnames name (List.mem_append_right _ hname)) hrest
    simpa using Paired.quoted free hinside hquoted

end Names

/-! ### Lines -/

section Lines

variable {P : List Char → Prop} {cs : List Char} {ls : List (List Char)}

theorem LinesOf.paired (houtside : ∀ inside, P inside → '\n' ∉ inside ∧ '\r' ∉ inside)
    (h : LinesOf cs ls) (hcs : Paired '\x60' P cs) : ∀ line ∈ ls, Paired '\x60' P line := by
  have hfeed : ∀ inside, P inside → '\n' ∉ inside := fun inside h => (houtside inside h).1
  have hreturn : ∀ inside, P inside → '\r' ∉ inside := fun inside h => (houtside inside h).2
  induction h with
  | nil => simp
  | last => simpa using hcs
  | feed _ _ _ ih =>
    obtain ⟨hline, hrest⟩ := hcs.cut (by decide) hfeed
    exact List.forall_mem_cons.mpr ⟨hline, ih hrest⟩
  | returnFeed _ _ ih =>
    obtain ⟨hline, hrest⟩ := hcs.cut (by decide) hreturn
    exact List.forall_mem_cons.mpr ⟨hline, ih (hrest.tail (by decide))⟩

theorem paired_indented (h : ∀ line ∈ ls, Paired '\x60' P line) :
    Paired '\x60' P (List.intercalate ['\n'] (ls.map ('\t' :: ·))) :=
  indented_induction .nil (fun hxs hys => hxs.append (.plain (by decide) hys))
    fun line hline => .plain (by decide) (h line hline)

end Lines

/-! ### Lexemes -/

section Lexemes

variable {P : List Char → Prop} {ls : List Lexeme}

/-- Lexemes in each of which backticks stand in pairs. -/
def AllPaired (P : List Char → Prop) (ls : List Lexeme) : Prop :=
  ∀ l ∈ ls, Paired '\x60' P l.spell.toList

theorem AllPaired.append {ls' : List Lexeme} (h : AllPaired P ls) (h' : AllPaired P ls') :
    AllPaired P (ls ++ ls') :=
  List.forall_mem_append.mpr ⟨h, h'⟩

theorem AllPaired.text (h : AllPaired P ls) : Paired '\x60' P (Lexeme.text ls).toList := by
  induction ls with
  | nil => exact .nil
  | cons l ls ih =>
    obtain ⟨hl, hls⟩ := List.forall_mem_cons.mp h
    rw [Lexeme.toList_text_cons]
    exact hl.append (ih hls)

theorem toList_spell_name (name : String) :
    (Lexeme.name name).spell.toList = '\x60' :: (name.toList ++ '\x60' :: []) := by
  simp [Lexeme.spell]

/-- A name among such lexemes is quoted, whatever else stands around them. -/
theorem AllPaired.isQuoted (h : AllPaired P ls) {name : String} (hname : .name name ∈ ls)
    (hfree : '\x60' ∉ name.toList) {front : List Char}
    (hfront : '\x60' ∉ front) (rest : List Char) :
    IsQuoted '\x60' name.toList (front ++ ((Lexeme.text ls).toList ++ rest)) := by
  obtain ⟨before, after, rfl⟩ := List.append_of_mem hname
  -- the lexemes in front of the name have an even number of backticks, so the name's own one opens
  have hbefore : Paired '\x60' P (front ++ (Lexeme.text before).toList) :=
    (Paired.of_notMem hfront).append (AllPaired.text fun l hl => h l (List.mem_append_left _ hl))
  refine ⟨_, (Lexeme.text after).toList ++ rest, ?_, hbefore.even_count, hfree⟩
  rw [Lexeme.text_append, String.toList_append, Lexeme.toList_text_cons, toList_spell_name]
  simp

end Lexemes

/-! ### The text of a procedure -/

/-- What stands between backticks in the procedure of a statement. -/
def Quotes (s : Statement) (inside : List Char) : Prop :=
  IsQuotedName inside ∨ ∃ p ∈ s.parameters, inside = (routineParameterName p.name).toList

theorem utf8ByteSize_le {name : String} (h : isParameterName name = true) :
    name.utf8ByteSize ≤ 64 := by
  rw [isParameterName, Bool.and_eq_true, NameKind.admits_iff] at h
  exact h.1.2.1

theorem isQuotedName_routineParameterName_iff {name : String} (h : isParameterName name = true) :
    IsQuotedName (routineParameterName name).toList ↔ name.utf8ByteSize ≤ 62 := by
  have hsize : (routineParameterName name).utf8ByteSize = 2 + name.utf8ByteSize :=
    String.utf8ByteSize_append
  rw [IsQuotedName, String.ofList_toList, hsize]
  constructor
  · rintro ⟨-, hle, -⟩
    omega
  · intro hle
    refine ⟨by simp [routineParameterName], by omega, ?_⟩
    have hchars := isIdentifierChar_of_isParameterName h
    simpa [routineParameterName] using ⟨by decide, by decide, hchars⟩

section Text

variable {database name : String} {s t : Statement} {p : Procedure} {inside : List Char}

theorem Quotes.isIdentifierChar (hs : s.Built) (h : Quotes s inside) :
    ∀ c ∈ inside, Text.isIdentifierChar c = true := by
  obtain ⟨-, -, hchars⟩ | ⟨p, hp, rfl⟩ := h
  · exact hchars
  · have hchars := isIdentifierChar_of_isParameterName (hs.made p hp).isParameterName
    simpa [routineParameterName] using ⟨by decide, by decide, hchars⟩

theorem Quotes.notMem (hs : s.Built) (h : Quotes s inside) {c : Char}
    (hc : Text.isIdentifierChar c = false) : c ∉ inside :=
  fun hmem => absurd (h.isIdentifierChar hs c hmem) (by simp [hc])

theorem paired_name (hs : s.Built) {name : String} (h : Quotes s name.toList) :
    Paired '\x60' (Quotes s) (Lexeme.name name).spell.toList := by
  rw [toList_spell_name]
  exact .quoted (h.notMem hs (by decide)) h .nil

/-- The body of a procedure. -/
theorem paired_body (hs : s.Built) (hp : ofStatement database name s = .ok p) :
    Paired '\x60' (Quotes s) p.bodyText.toList := by
  obtain ⟨-, -, hbound, routine, -, rfl⟩ := ofStatement_ok.mp hp
  obtain ⟨body, htext, hbody⟩ := hs.isContained
  have hpaired : Paired '\x60' IsQuotedName s.text.toList := by
    rw [htext, Lexeme.text_append, String.toList_append]
    exact (safe_text hbody).names.append (.of_notMem (by decide))
  have hsegments : Segment.textOf (Segment.split s.text.toList) = s.text.toList :=
    (Segment.split_eq_iff.mp rfl).2
  have houtside : ∀ inside, IsQuotedName inside → Quotes s inside ∧ '@' ∉ inside :=
    fun inside h => ⟨.inl h, fun hmem => absurd (h.2.2 _ hmem) (by decide)⟩
  have hnames : ∀ n, .placeholder n ∈ Segment.split s.text.toList →
      '\x60' ∉ n ∧ Quotes s ("p_".toList ++ n) := by
    intro n hn
    obtain ⟨q, hq, hname⟩ := hbound (String.ofList n) (List.mem_filterMap.mpr ⟨_, hn, rfl⟩)
    have hquotes : Quotes s ("p_".toList ++ n) :=
      .inr ⟨q, hq, by simp [hname, routineParameterName]⟩
    exact ⟨fun hmem => hquotes.notMem hs (by decide) (List.mem_append_right _ hmem), hquotes⟩
  have hrefer := paired_refer houtside hnames (hsegments.symm ▸ hpaired)
  have hlines := (linesOf_lines _).paired
    (fun inside h => ⟨h.notMem hs (by decide), h.notMem hs (by decide)⟩) hrefer
  rw [bodyText, String.toList_ofList]
  exact paired_indented hlines

theorem allPaired_contained {ls : List Lexeme} (h : AllContained ls) : AllPaired (Quotes s) ls :=
  fun l hl => (h l hl).safe.names.mono fun _ => .inl

theorem allPaired_parameter (hs : s.Built) {q : Parameter} (hq : q ∈ s.parameters)
    {r : RoutineParameter} (h : r.Takes q) : AllPaired (Quotes s) r.lexemes := by
  obtain ⟨-, hname, hdeclared⟩ := h
  obtain ⟨d, -, hwritten⟩ := bind_eq_ok.mp hdeclared
  -- the words of directions stand in no other statement
  have hkeyword : Paired '\x60' (Quotes s) (word r.direction.keyword).spell.toList :=
    .of_notMem (by cases r.direction <;> decide)
  have hspace : AllPaired (Quotes s) [space] := allPaired_contained (.evident rfl)
  have hdeclaration : AllPaired (Quotes s) [word r.declaration] :=
    allPaired_contained (.cons (.declaration (liftType_ok hwritten)) .nil)
  have hquotes : Quotes s r.name.toList := .inr ⟨q, hq, by rw [hname, routineParameterName]⟩
  simp only [AllPaired, List.forall_mem_singleton] at hspace hdeclaration
  simp only [AllPaired, RoutineParameter.lexemes, List.forall_mem_cons]
  exact ⟨hkeyword, hspace, paired_name hs hquotes, hspace, hdeclaration, by simp⟩

/-- The part in front of the body is made of contained lexemes, and those of its parameters. -/
theorem forall_headLexemes {P : Lexeme → Prop} (hp : ofStatement database name s = .ok p)
    (contained : ∀ l, l.Contained → l.parameter? = none → P l)
    (parameter : ∀ q ∈ s.parameters, ∀ r, RoutineParameter.Takes r q → ∀ l ∈ r.lexemes, P l) :
    ∀ l ∈ p.headLexemes, P l := by
  obtain ⟨hdatabase, hname, -, routine, hroutine, rfl⟩ := ofStatement_ok.mp hp
  have append {xs ys : List Lexeme} (hxs : ∀ l ∈ xs, P l) (hys : ∀ l ∈ ys, P l) :
      ∀ l ∈ xs ++ ys, P l := List.forall_mem_append.mpr ⟨hxs, hys⟩
  have hcontained {ls : List Lexeme} (h : AllContained ls) (hnames : Lexeme.names ls = []) :
      ∀ l ∈ ls, P l := fun l hl => contained l (h l hl) (List.filterMap_eq_nil_iff.mp hnames l hl)
  have hevident {ls : List Lexeme} (h : ls.all Lexeme.isEvident = true)
      (hnames : Lexeme.names ls = []) : ∀ l ∈ ls, P l := hcontained (.evident h) hnames
  have hqualified : ∀ l ∈ qualified database name, P l :=
    hcontained (contained_qualified hdatabase (by decide) hname) rfl
  have hparameters : ∀ l ∈ Lexeme.commaLines (routine.map RoutineParameter.lexemes), P l := by
    refine Lexeme.joined_induction (P := fun ls => ∀ l ∈ ls, P l) (hevident rfl rfl)
      (fun hxs hys => append (append hxs (hevident rfl rfl)) hys) fun ls hls => ?_
    obtain ⟨r, hr, rfl⟩ := List.mem_map.mp hls
    obtain ⟨q, hq, htakes⟩ := exists_mem_of_forall₂ hroutine hr
    exact parameter q hq r htakes
  refine append (append (append (hevident rfl rfl) hqualified) (hevident rfl rfl)) ?_
  split_ifs
  · exact hevident rfl rfl
  · exact append (append (hevident rfl rfl) hparameters) (hevident rfl rfl)

theorem allPaired_headLexemes (hs : s.Built) (hp : ofStatement database name s = .ok p) :
    AllPaired (Quotes s) p.headLexemes :=
  forall_headLexemes hp (fun _ hl _ => hl.safe.names.mono fun _ => .inl)
    fun _ hq _ htakes => allPaired_parameter hs hq htakes

theorem mem_headLexemes {r : RoutineParameter} (hr : r ∈ p.parameters) :
    .name r.name ∈ p.headLexemes := by
  have hmem : .name r.name ∈ Lexeme.commaLines (p.parameters.map RoutineParameter.lexemes) :=
    (Lexeme.infix_joined (List.mem_map_of_mem hr)).subset (by simp [RoutineParameter.lexemes])
  have hsome : p.parameters.isEmpty = false := by simpa using List.ne_nil_of_mem hr
  rw [headLexemes, hsome]
  simp [hmem]

/-- The text of a procedure, with what stands around its head and its body. -/
theorem exists_toList_text (p : Procedure) (alternate : Bool) :
    ∃ front rest, '\x60' ∉ front ∧ '\x60' ∉ rest ∧ (p.text alternate).toList =
      front ++ ((Lexeme.text p.headLexemes).toList ++
        ("\nBEGIN\n".toList ++ (p.bodyText.toList ++ rest))) := by
  cases alternate with
  | false =>
    refine ⟨[], "\nEND;".toList, by decide, by decide, ?_⟩
    simp [text, core]
  | true =>
    refine ⟨"DELIMITER $$\n".toList, "\nEND$$\nDELIMITER ;".toList, by decide, by decide, ?_⟩
    simp [text, core, alternateDelimiter]

/-- What stands between the backticks of a procedure's text: checked names, and the names of the
statement's parameters behind the prefix. -/
theorem paired_text (hs : s.Built) (hp : ofStatement database name s = .ok p) (alternate : Bool) :
    Paired '\x60' (Quotes s) (p.text alternate).toList := by
  obtain ⟨front, rest, hfront, hrest, htext⟩ := exists_toList_text p alternate
  rw [htext]
  exact (Paired.of_notMem hfront).append ((allPaired_headLexemes hs hp).text.append
    ((Paired.of_notMem (by decide)).append ((paired_body hs hp).append (.of_notMem hrest))))

/-- The names of all routine parameters stand between backticks. -/
theorem isQuoted_parameter (hs : s.Built) (hp : ofStatement database name s = .ok p)
    (alternate : Bool) {q : Parameter} (hq : q ∈ s.parameters) :
    IsQuoted '\x60' (routineParameterName q.name).toList (p.text alternate).toList := by
  obtain ⟨front, rest, hfront, -, htext⟩ := exists_toList_text p alternate
  obtain ⟨-, -, -, routine, hroutine, heq⟩ := ofStatement_ok.mp hp
  obtain ⟨r, hr, -, hname, -⟩ := exists_mem_of_forall₂ hroutine.flip hq
  have hmem : .name (routineParameterName q.name) ∈ p.headLexemes := by
    rw [routineParameterName, ← hname]
    exact mem_headLexemes (heq ▸ hr)
  have hquotes : Quotes s (routineParameterName q.name).toList := .inr ⟨q, hq, rfl⟩
  rw [htext]
  exact (allPaired_headLexemes hs hp).isQuoted hmem (hquotes.notMem hs (by decide)) hfront _

/-- Backticks stand in pairs in the procedure of a built statement. What stands between them passes
the rule for names, except for the routine parameters of parameters with names of 63 or 64 bytes,
where the prefix exceeds the length. So all of it passes the rule if and only if there are none of
these. -/
theorem quoted_names_iff {alternate : Bool} (hs : s.Built)
    (h : create database name s alternate = .ok t) :
    Even (t.text.toList.count '\x60') ∧
    (∀ inside, IsQuoted '\x60' inside t.text.toList → IsQuotedName inside ∨
      ∃ p ∈ s.parameters, inside = (routineParameterName p.name).toList ∧
        (p.name.utf8ByteSize = 63 ∨ p.name.utf8ByteSize = 64)) ∧
    ((∀ inside, IsQuoted '\x60' inside t.text.toList → IsQuotedName inside) ↔
      ∀ p ∈ s.parameters, p.name.utf8ByteSize ≤ 62) := by
  obtain ⟨p, hp, rfl⟩ := create_ok.mp h
  have hpaired := paired_text hs hp alternate
  have hquotes : ∀ inside, IsQuoted '\x60' inside (p.text alternate).toList → Quotes s inside :=
    fun inside ⟨before, after, heq, heven, hfree⟩ => hpaired.of_segment heq heven hfree
  have hshort {q : Parameter} (hq : q ∈ s.parameters) :=
    isQuotedName_routineParameterName_iff (hs.made q hq).isParameterName
  refine ⟨hpaired.even_count, fun inside hinside => ?_, fun hall q hq => ?_,
    fun hall inside hinside => ?_⟩
  · obtain hname | ⟨q, hq, rfl⟩ := hquotes inside hinside
    · exact .inl hname
    · -- the name of a parameter is checked without the prefix
      have hmost : q.name.utf8ByteSize ≤ 64 := utf8ByteSize_le (hs.made q hq).isParameterName
      by_cases hsize : q.name.utf8ByteSize ≤ 62
      · exact .inl ((hshort hq).mpr hsize)
      · exact .inr ⟨q, hq, rfl, by omega⟩
  · exact (hshort hq).mp (hall _ (isQuoted_parameter hs hp alternate hq))
  · obtain hname | ⟨q, hq, rfl⟩ := hquotes inside hinside
    · exact hname
    · exact (hshort hq).mpr (hall q hq)

end Text

/-- A name that is a parameter's, and too long behind the prefix. -/
def longName : String :=
  "aaaaaaaaaaaaaaaaaaaaaaaaaaaaaaaaaaaaaaaaaaaaaaaaaaaaaaaaaaaaaaa"

/-- A delete with such a parameter has a procedure, in which the routine parameter is quoted. -/
theorem quoted_names_delete :
    ∃ s t, s.Built ∧ create "app" "drop_one" s false = .ok t ∧
      IsQuoted '\x60' (routineParameterName longName).toList t.text.toList ∧
      ¬ IsQuotedName (routineParameterName longName).toList := by
  have hparse : Filter.parse ("row => row.A == " ++ longName) [⟨longName, ⟨.i32, false⟩⟩] =
      .ok ⟨.compare .eq (.field "A") (.param longName), [⟨longName, ⟨.i32, false⟩⟩]⟩ := rfl
  have hmade : Compiler.delete ⟨"app", by decide⟩
      ⟨"One", "one", [{ property := "A", host := ⟨.i32, false⟩ }]⟩
      ⟨.compare .eq (.field "A") (.param longName), [⟨longName, ⟨.i32, false⟩⟩]⟩ =
        .ok ⟨"DELETE FROM `app`.`one`\nWHERE (`A` = @" ++ longName ++ ");",
          [⟨longName, "int", none, .input⟩]⟩ := by
    decide +kernel
  have hbuilt : Statement.Built _ := .delete (.parse hparse) hmade
  have hnames : NameKind.database.admits "app" = true ∧ NameKind.procedure.admits "drop_one" = true :=
    ⟨by decide, by decide⟩
  obtain ⟨t, ht⟩ := exists_create_of_built hbuilt hnames.1 hnames.2
  obtain ⟨-, hquoted, hiff⟩ := quoted_names_iff hbuilt ht
  -- not all quoted names pass the rule, and the one that does not is the routine parameter
  have hlong : ¬ ∀ inside, IsQuoted '\x60' inside t.text.toList → IsQuotedName inside := fun hall =>
    absurd (hiff.mp hall _ (List.mem_singleton.mpr rfl)) (by decide +kernel)
  obtain ⟨inside, hinside, hnot⟩ : ∃ inside, IsQuoted '\x60' inside t.text.toList ∧
      ¬ IsQuotedName inside := by
    simpa using hlong
  obtain hname | ⟨p, hp, rfl, -⟩ := hquoted inside hinside
  · exact absurd hname hnot
  · obtain rfl := List.mem_singleton.mp hp
    exact ⟨_, t, hbuilt, ht, hinside, hnot⟩

end Procedure

end TypedSql
