/-
Scripts that create a procedure with another delimiter.

A dollar sign may stand in every name, so two of them may be part of one, and the body of a procedure
has a semicolon. But a name stands between backticks, also where it stands for a placeholder, and no
line of a procedure asks for a delimiter.

* `Statement.Built.exists_named` — the body of a procedure is spelled by the lexemes of its
  statement, with names for the placeholders;
* `Lexeme.Contained.quiet` — lexemes of statements show no dollar sign outside of quotes, and none
  begins like the word that asks for a delimiter;
* `Procedure.run_create` — so a client finds in the script the one statement that it is made for.
-/
import TypedSql.Proofs.QuotedNames
import TypedSql.Proofs.ScriptClient

namespace TypedSql

open Client (Shielded QuietLines diverges)
open Lexeme (word mark blank space words qualified names)

/-! ### Placeholders among the lexemes -/

/-- Lexemes without placeholders spell a text without them. -/
theorem AllContained.discerned {body : List Lexeme} (h : AllContained body)
    (hnames : names body = []) : Discerned body := by
  induction body with
  | nil => exact discerned_nil
  | cons l ls ih =>
    obtain ⟨hl, hls⟩ := List.forall_mem_cons.mp h
    have hnone := List.filterMap_eq_nil_iff.mp hnames
    have hplain : l.segments = l.spell.toList.map .plain := by
      cases l with
      | placeholder name => exact absurd (hnone _ List.mem_cons_self) (by simp [Lexeme.parameter?])
      | _ => rfl
    have hrest : Discerned ls := ih hls <|
      List.filterMap_eq_nil_iff.mpr fun l' hl' => hnone l' (List.mem_cons_of_mem _ hl')
    rw [Discerned, List.flatMap_cons, List.append_assoc, hplain]
    exact Segment.maximal_plain (hl.notMem_at (hnone l List.mem_cons_self)) hrest

/-- A statement of contained lexemes whose placeholders are found in the text. -/
def Statement.IsDiscerned (s : Statement) : Prop :=
  ∃ body, s.text = Lexeme.text (body ++ [mark ";"]) ∧ AllContained body ∧ Discerned body

theorem Statement.Built.isDiscerned {s : Statement} (h : s.Built) : s.IsDiscerned := by
  have legible {body : List Lexeme} {parameters : List Parameter} (hbody : Legible body) :
      (ofBody body parameters).IsDiscerned :=
    ⟨body, rfl, hbody.contained, hbody.discerned⟩
  have plain {body : List Lexeme} {parameters : List Parameter} (hbody : AllContained body)
      (hnames : names body = []) : (ofBody body parameters).IsDiscerned :=
    ⟨body, rfl, hbody, hbody.discerned hnames⟩
  cases h with
  | selectTop accepted made =>
    obtain ⟨_, _, _, _, _, _, hhead, hparts, horder, -, rfl⟩ := Compiler.selectTop_ok made
    exact legible (legible_selectTop hhead (legible_filterParts accepted hparts) horder)
  | selectPage accepted made =>
    obtain ⟨_, _, _, _, _, _, _, _, _, -, hkey, hhead, hparts, -, -, -, rfl⟩ :=
      Compiler.selectPage_ok made
    exact legible
      (legible_selectPage hhead (legible_filterParts accepted hparts) (checkedColumn_ok hkey).2)
  | count accepted made =>
    obtain ⟨_, _, _, htable, hparts, rfl⟩ := Compiler.count_ok made
    exact legible (legible_count (legible_table htable) (legible_filterParts accepted hparts))
  | insert made =>
    obtain ⟨_, _, _, htable, hwritten, rfl⟩ := Compiler.insert_ok made
    exact legible (legible_insert (legible_table htable) hwritten)
  | update accepted made =>
    obtain ⟨_, _, _, _, _, htable, hwritten, hcondition, -, rfl⟩ := Compiler.update_ok made
    exact legible
      (legible_update (legible_table htable) hwritten (legible_condition accepted hcondition))
  | delete accepted made =>
    obtain ⟨_, _, _, htable, hcondition, -, rfl⟩ := Compiler.delete_ok made
    exact legible (legible_delete (legible_table htable) (legible_condition accepted hcondition))
  | createTable made =>
    obtain ⟨definition, _, hdefinition, htable, rfl⟩ := Compiler.createTable_ok made
    exact plain (contained_createTable (contained_table htable)
      (contained_tableDefinition hdefinition)) (names_createTable htable definition)
  | addColumn made =>
    obtain ⟨_, _, position, _, definition, -, -, hposition, htable, hdefinition, rfl⟩ :=
      Compiler.addColumn_ok made
    exact plain (contained_addColumn (contained_table htable) (contained_definition hdefinition).2.2
      (contained_position hposition)) (names_addColumn htable definition position)
  | dropColumn made =>
    obtain ⟨hdatabase, htable, hcolumn, rfl⟩ := dropColumn_ok made
    exact plain (contained_dropColumn hdatabase htable hcolumn) rfl
  | dropProcedure made =>
    obtain ⟨hdatabase, hname, rfl⟩ := dropProcedure_ok made
    exact plain (contained_dropProcedure hdatabase hname) rfl

/-- A lexeme in the body of a procedure: a name stands for a placeholder. -/
def Lexeme.named : Lexeme → Lexeme
  | placeholder parameter => name (routineParameterName parameter)
  | l => l

theorem flatMap_refer_segments (ls : List Lexeme) :
    (ls.flatMap Lexeme.segments).flatMap Procedure.refer =
      (Lexeme.text (ls.map Lexeme.named)).toList := by
  induction ls with
  | nil => rfl
  | cons l ls ih =>
    have hl : l.segments.flatMap Procedure.refer = l.named.spell.toList := by
      cases l with
      | placeholder name =>
        simp [Lexeme.segments, Lexeme.named, Procedure.refer, Lexeme.spell, routineParameterName]
      | _ => simp [Lexeme.segments, Lexeme.named, Procedure.refer, List.flatMap_map]
    rw [List.flatMap_cons, List.flatMap_append, hl, ih, List.map_cons, Lexeme.toList_text_cons]

/-- In the body of its procedure, a built statement is spelled by its lexemes with names for the
placeholders. -/
theorem Statement.Built.exists_named {s : Statement} (h : s.Built) :
    ∃ body, AllContained body ∧ (Segment.split s.text.toList).flatMap Procedure.refer =
      (Lexeme.text (body.map Lexeme.named ++ [mark ";"])).toList := by
  obtain ⟨body, htext, hbody, hdiscerned⟩ := h.isDiscerned
  refine ⟨body, hbody, ?_⟩
  rw [htext, hdiscerned.split_text, List.flatMap_append, flatMap_refer_segments,
    Lexeme.text_append, String.toList_append]
  rfl

/-! ### Quiet lexemes -/

/-- A lexeme that shows no dollar sign outside of quotes. It is white space, or it stands in a line
and begins like no word that asks for a delimiter. -/
structure Lexeme.Quiet (l : Lexeme) : Prop where
  shielded : Shielded '$' l.spell.toList
  noReturn : '\r' ∉ l.spell.toList
  begins : (∃ text ∈ blanks, l = .blank text) ∨
    '\n' ∉ l.spell.toList ∧ diverges l.spell.toList = true

/-- Whether a character is no dollar sign, opens no quotes and ends no line. -/
def isOpen (c : Char) : Bool :=
  c != '$' && c != '\x60' && c != '"' && c != '\r' && c != '\n'

/-- Whether a text has such characters only. -/
def isOpenText (text : String) : Bool :=
  text.toList.all isOpen

theorem isOpen_of_isDigit (c : Char) (hc : c.isDigit = true) : isOpen c = true := by
  have hne : ∀ {d : Char}, d.isDigit = false → c ≠ d := by
    rintro d hd rfl
    exact absurd (hc.symm.trans hd) (by decide)
  simp [isOpen, hne (d := '$') (by decide), hne (d := '\x60') (by decide),
    hne (d := '"') (by decide), hne (d := '\r') (by decide), hne (d := '\n') (by decide)]

section Quiet

variable {l : Lexeme} {ls : List Lexeme}

theorem forall_of_mem_blanks {text : String} (known : text ∈ blanks) : ∀ c ∈ text.toList,
    (Text.isBlank c = true ∧ c ≠ '$' ∧ c ≠ '\x60' ∧ c ≠ '"') ∧ c ≠ '\r' := by
  have hall : blanks.all (fun text => text.toList.all fun c =>
      Text.isBlank c && c != '$' && c != '\x60' && c != '"' && c != '\r') = true := by
    decide +kernel
  intro c hc
  simpa [and_assoc] using List.all_eq_true.mp (List.all_eq_true.mp hall text known) c hc

theorem quiet_of_isOpenText (hopen : isOpenText l.spell = true)
    (hdiverges : diverges l.spell.toList = true) : l.Quiet := by
  have heach : ∀ c ∈ l.spell.toList,
      (c ≠ '$' ∧ c ≠ '\x60' ∧ c ≠ '"') ∧ c ≠ '\r' ∧ c ≠ '\n' := by
    simpa [isOpenText, isOpen, and_assoc] using hopen
  exact ⟨.of_plain fun c hc => (heach c hc).1, fun hc => (heach _ hc).2.1 rfl,
    .inr ⟨fun hc => (heach _ hc).2.2 rfl, hdiverges⟩⟩

theorem quiet_name {name : String} (h : ∀ c ∈ name.toList, Text.isIdentifierChar c = true) :
    (Lexeme.name name).Quiet := by
  have hfree : ∀ {c : Char}, Text.isIdentifierChar c = false → c ∉ name.toList := fun hc hmem =>
    absurd (h _ hmem) (by simp [hc])
  have hquoted : Shielded '$' ('\x60' :: (name.toList ++ '\x60' :: [])) :=
    .quoted (.inl rfl) (hfree (by decide)) .nil
  have hspell : (Lexeme.name name).spell.toList = '\x60' :: (name.toList ++ '\x60' :: []) :=
    Procedure.toList_spell_name name
  refine ⟨hspell ▸ hquoted, ?_, .inr ⟨?_, ?_⟩⟩
  · simpa [hspell] using hfree (by decide)
  · simpa [hspell] using hfree (by decide)
  · rw [hspell]
    exact Client.diverges_cons (by decide) (by decide) _

/-- The declaration of a type begins with the name of a family. -/
theorem diverges_write {native : NativeType} {length : Option UInt32} {text : String}
    (h : Declaration.write Registry.standard native length = .ok text) :
    diverges text.toList = true := by
  obtain ⟨name, hname, -⟩ := bind_eq_ok.mp h
  obtain ⟨f, hf, unsigned, rfl⟩ := Declaration.declarable_of_nameOf hname
  obtain rfl := Except.ok.inj ((Declaration.write_member hf unsigned length).symm.trans h)
  have hall : ∀ f ∈ Family.standard, diverges f.name.toList = true := by decide +kernel
  rw [Declaration.spelling, String.toList_append, String.toList_append, List.append_assoc]
  exact Client.diverges_append (hall f hf) _

theorem quiet_signed (h : Number.Signed l.spell.toList) : l.Quiet := by
  refine quiet_of_isOpenText (List.all_eq_true.mpr
    (forall_of_signed isOpen_of_isDigit (List.all_eq_true.mp (by decide)) h)) ?_
  have hletter : ∀ c : Char, c.isDigit = true → c.toLower ≠ 'd' := by
    intro c hc
    have hupper : ¬ c.isUpper = true := by
      rw [Text.isUpper_iff]
      have hcode := Text.isDigit_iff.mp hc
      omega
    rw [Char.toLower_eq_of_not_isUpper hupper]
    rintro rfl
    exact absurd hc (by decide)
  generalize l.spell.toList = cs at h
  cases h with
  | plain unsigned =>
    obtain @⟨whole, fraction, exponent, some, each, -, -⟩ := unsigned
    obtain ⟨c, more, rfl⟩ := List.exists_cons_of_ne_nil some
    have hc := each c List.mem_cons_self
    exact Client.diverges_cons (Text.not_isBlank_of_isDigit hc) (hletter c hc) _
  | negative _ => exact Client.diverges_cons (by decide) (by decide) _

theorem Lexeme.Contained.quiet (h : l.Contained) (hnone : l.parameter? = none) : l.Quiet := by
  have hknown : ∀ {texts : List String} {text : String}, text ∈ texts →
      texts.all (fun text => isOpenText text && diverges text.toList) = true →
        isOpenText text = true ∧ diverges text.toList = true := fun htext htexts =>
    Bool.and_eq_true_iff.mp (List.all_eq_true.mp htexts _ htext)
  cases h with
  | @blank text known =>
    have hall := forall_of_mem_blanks known
    exact ⟨.of_plain fun c hc => (hall c hc).1.2, fun hc => (hall _ hc).2 rfl,
      .inl ⟨text, known, rfl⟩⟩
  | word known =>
    obtain ⟨hopen, hdiverges⟩ := hknown known (by decide +kernel)
    exact quiet_of_isOpenText hopen hdiverges
  | declaration written =>
    refine quiet_of_isOpenText (all_write (by decide +kernel) isOpen_of_isDigit (by decide) written)
      (diverges_write written)
  | mark known =>
    obtain ⟨hopen, hdiverges⟩ := hknown known (by decide +kernel)
    exact quiet_of_isOpenText hopen hdiverges
  | name notVariable checked => exact quiet_name (isIdentifierChar_of_admits notVariable checked)
  | placeholder _ => cases hnone
  | integer value => exact quiet_signed (Number.signed_toString _)
  | number finite => exact quiet_signed (Number.signed_write _ _ finite)
  | anyText =>
    have hquoted : Shielded '$' ('"' :: (['%'] ++ '"' :: [])) :=
      .quoted (.inr rfl) (by decide) .nil
    exact ⟨hquoted, by decide, .inr ⟨by decide, by decide⟩⟩

/-- A name for a placeholder is quiet as well. -/
theorem Lexeme.Contained.quiet_named (h : l.Contained) : l.named.Quiet := by
  cases l with
  | placeholder name =>
    refine quiet_name ?_
    simpa [routineParameterName] using ⟨by decide, by decide, h.isIdentifierChar⟩
  | _ => exact h.quiet rfl

theorem notMem_return_text (h : ∀ l ∈ ls, l.Quiet) : '\r' ∉ (Lexeme.text ls).toList := by
  induction ls with
  | nil => simp
  | cons l ls ih =>
    obtain ⟨hl, hls⟩ := List.forall_mem_cons.mp h
    rw [Lexeme.toList_text_cons, List.mem_append, not_or]
    exact ⟨hl.noReturn, ih hls⟩

/-- Quiet lexemes spell quiet lines. -/
theorem quietLines_text (h : ∀ l ∈ ls, l.Quiet) : QuietLines '$' (Lexeme.text ls).toList := by
  induction ls with
  | nil => exact Client.quietLines_nil
  | cons l ls ih =>
    obtain ⟨hl, hls⟩ := List.forall_mem_cons.mp h
    rw [Lexeme.toList_text_cons]
    obtain ⟨text, known, rfl⟩ | ⟨inLine, hdiverges⟩ := hl.begins
    · -- white space may end lines, and it stands in front of the first word of the last one
      exact (ih hls).append_blank fun c hc => (forall_of_mem_blanks known c hc).1
    · refine (ih hls).append_first inLine fun line hline => ⟨hl.shielded.append hline.shielded, ?_⟩
      exact Client.request?_eq_none (Client.diverges_append hdiverges line)

end Quiet

/-! ### Procedures -/

namespace Procedure

variable {database name : String} {s : Statement} {p : Procedure}

theorem LinesOf.mem_splitAt {cs : List Char} {ls : List (List Char)} (h : LinesOf cs ls)
    (hreturn : '\r' ∉ cs) : ∀ line ∈ ls, line ∈ Text.splitAt '\n' cs := by
  induction h with
  | nil => simp
  | last _ inLine => simp [Text.splitAt_of_notMem inLine]
  | feed inLine _ _ ih =>
    rw [List.mem_append, List.mem_cons, not_or, not_or] at hreturn
    rw [Text.splitAt_append inLine]
    refine List.forall_mem_cons.mpr ⟨List.mem_cons_self, fun line hline => ?_⟩
    exact List.mem_cons_of_mem _ (ih hreturn.2.2 line hline)
  | returnFeed => simp at hreturn

/-- The lines of the body. -/
theorem quietLines_body (hs : s.Built) (hp : ofStatement database name s = .ok p) :
    QuietLines '$' p.bodyText.toList := by
  obtain ⟨-, -, -, routine, -, rfl⟩ := ofStatement_ok.mp hp
  obtain ⟨body, hbody, htext⟩ := hs.exists_named
  have hquiet : ∀ l ∈ body.map Lexeme.named ++ [mark ";"], l.Quiet := by
    refine List.forall_mem_append.mpr ⟨List.forall_mem_map.mpr fun l hl => ?_, ?_⟩
    · exact (hbody l hl).quiet_named
    · exact List.forall_mem_singleton.mpr (quiet_of_isOpenText (by decide) (by decide))
  have hreturn : '\r' ∉ (Lexeme.text (body.map Lexeme.named ++ [mark ";"])).toList :=
    notMem_return_text hquiet
  have hlines := (linesOf_lines _).mem_splitAt hreturn
  rw [bodyText, String.toList_ofList, htext]
  refine indented_induction Client.quietLines_nil (fun hxs hys => hxs.append_newline hys) ?_
  intro line hline
  have hmem := hlines line hline
  have hone : QuietLines '$' line := by
    rw [QuietLines, Text.splitAt_of_notMem (Text.notMem_of_mem_splitAt hmem)]
    exact List.forall_mem_singleton.mpr (quietLines_text hquiet line hmem)
  exact hone.blank_cons (by decide) (by decide)

theorem quiet_parameter (hs : s.Built) {q : Parameter} (hq : q ∈ s.parameters)
    {r : RoutineParameter} (h : r.Takes q) : ∀ l ∈ r.lexemes, l.Quiet := by
  obtain ⟨-, hname, hdeclared⟩ := h
  obtain ⟨d, -, hwritten⟩ := bind_eq_ok.mp hdeclared
  have hkeyword : (word r.direction.keyword).Quiet := by
    cases r.direction <;> exact quiet_of_isOpenText (by decide) (by decide)
  have hspace : space.Quiet := Lexeme.Contained.quiet (.blank (by decide)) rfl
  have hdeclaration : (word r.declaration).Quiet :=
    Lexeme.Contained.quiet (.declaration (liftType_ok hwritten)) rfl
  have hquotes : Quotes s r.name.toList := .inr ⟨q, hq, by rw [hname, routineParameterName]⟩
  simp only [RoutineParameter.lexemes, List.forall_mem_cons]
  exact ⟨hkeyword, hspace, quiet_name (hquotes.isIdentifierChar hs), hspace, hdeclaration, by simp⟩

/-- The lexemes in front of the body. -/
theorem quiet_headLexemes (hs : s.Built) (hp : ofStatement database name s = .ok p) :
    ∀ l ∈ p.headLexemes, l.Quiet :=
  forall_headLexemes hp (fun _ hl hnone => hl.quiet hnone) fun _ hq _ htakes =>
    quiet_parameter hs hq htakes

theorem quietLines_front (hs : s.Built) (hp : ofStatement database name s = .ok p) :
    QuietLines '$' ((Lexeme.text p.headLexemes).toList ++ '\n' :: ("BEGIN".toList ++ '\n' ::
      p.bodyText.toList)) := by
  have hword : ∀ l ∈ [word "BEGIN"], l.Quiet :=
    List.forall_mem_singleton.mpr (quiet_of_isOpenText (by decide) (by decide))
  have hbegin : QuietLines '$' "BEGIN".toList := quietLines_text hword
  exact (quietLines_text (quiet_headLexemes hs hp)).append_newline
    (hbegin.append_newline (quietLines_body hs hp))

/-- For every built statement and valid names, there is a procedure, and a script that creates it.
A client finds one statement in the script, which is the text of the procedure without the semicolon
at its end, and the semicolon is the delimiter again. -/
theorem run_create (hs : s.Built) (hdatabase : NameKind.database.admits database = true)
    (hname : NameKind.procedure.admits name = true) :
    ∃ plain script statement, create database name s false = .ok plain ∧
      create database name s true = .ok script ∧ plain.text = statement ++ ";" ∧
      Client.run script.text = { delimiter := [';'], statements := [statement] } := by
  obtain ⟨plain, hplain⟩ := @exists_create_of_built _ _ _ false hs hdatabase hname
  obtain ⟨p, hp, rfl⟩ := create_ok.mp hplain
  have hcore : p.core = .ofList ((Lexeme.text p.headLexemes).toList ++ '\n' ::
      ("BEGIN".toList ++ '\n' :: p.bodyText.toList) ++ "\nEND".toList) := by
    rw [← String.toList_inj]
    simp [core]
  have hscript : p.text true = .ofList ("DELIMITER $$".toList ++ '\n' ::
      ((Lexeme.text p.headLexemes).toList ++ '\n' :: ("BEGIN".toList ++ '\n' ::
        p.bodyText.toList) ++ '\n' :: ("END$$".toList ++ '\n' :: "DELIMITER ;".toList))) := by
    rw [← String.toList_inj]
    simp [text, core, alternateDelimiter]
  refine ⟨_, _, p.core, hplain, create_ok.mpr ⟨p, hp, rfl⟩, rfl, ?_⟩
  dsimp only
  rw [hscript, Client.run_script (quietLines_front hs hp), hcore]

/-- An insert in which each name ends with two dollar signs. -/
theorem run_create_dollars :
    ∃ s script, s.Built ∧ create "d$$" "p$$" s true = .ok script ∧
      Client.run script.text = { statements := ["CREATE PROCEDURE `d$$`.`p$$`(\n\tIN `p_A$$` int" ++
        "\n)\nBEGIN\n\tINSERT INTO `d$$`.`t$$` (\n\t\t`A$$`\n\t) VALUES (\n\t\t`p_A$$`\n\t);" ++
        "\nEND"] } := by
  have hmade : Compiler.insert ⟨"d$$", by decide⟩
      ⟨"Row", "t$$", [{ property := "A$$", host := ⟨.i32, false⟩ }]⟩ =
        .ok ⟨"INSERT INTO `d$$`.`t$$` (\n\t`A$$`\n) VALUES (\n\t@A$$\n);",
          [⟨"A$$", "int", none, .input⟩]⟩ := by
    decide +kernel
  have hbuilt : Statement.Built _ := .insert hmade
  obtain ⟨plain, script, statement, hplain, hscript, htext, hrun⟩ :=
    @run_create "d$$" "p$$" _ hbuilt (by decide) (by decide)
  have hcreated : (create "d$$" "p$$" ⟨"INSERT INTO `d$$`.`t$$` (\n\t`A$$`\n) VALUES (\n\t@A$$\n);",
      [⟨"A$$", "int", none, .input⟩]⟩ false).map Statement.text =
        .ok ("CREATE PROCEDURE `d$$`.`p$$`(\n\tIN `p_A$$` int" ++
          "\n)\nBEGIN\n\tINSERT INTO `d$$`.`t$$` (\n\t\t`A$$`\n\t) VALUES (\n\t\t`p_A$$`\n\t);" ++
          "\nEND" ++ ";") := by
    decide +kernel
  rw [hplain] at hcreated
  have hstatement := htext.symm.trans (Except.ok.inj hcreated)
  rw [String.append_left_inj] at hstatement
  exact ⟨_, script, hbuilt, hscript, by rw [hrun, hstatement]⟩

end Procedure

end TypedSql
