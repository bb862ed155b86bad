/-
Stored procedures that are made from statements.

* `Procedure.ofStatement_ok` — when there is a procedure, and what is in it;
* `Procedure.text_eq` — its text;
* `Statement.Built.made`, `Statement.Built.bound` — the parameters of a built statement are those of
  columns, of its filter and of paging, and its text names no others;
* `Procedure.create_exact` — all of it: whatever the statement is, the procedure carries it.
-/
import TypedSql.Proofs.BuiltStatements
import TypedSql.Proofs.DeclarationRoundTrip
import TypedSql.Proofs.Parameters
import TypedSql.Proofs.ProcedureBody

namespace TypedSql

open Lexeme (word mark blank space words qualified names)

/-! ### Declarations of parameters -/

/-- Every server type that a declaration can mean has a name. -/
theorem exists_nameOf_read {text : String} {nullable : Bool} {d : Declaration}
    (h : Declaration.read Registry.standard text nullable = .ok d) :
    ∃ name, Registry.standard.nameOf d.native = .ok name := by
  obtain ⟨⟨f, hf, unsigned, hmember⟩, -⟩ := Declaration.ofMember_of_read h
  exact ⟨_, hmember.native ▸ Declaration.nameOf_member hf unsigned⟩

/-- The name of every server type can be read. -/
theorem read_of_nameOf {native : NativeType} {name : String}
    (h : Registry.standard.nameOf native = .ok name) :
    ∃ d, Declaration.read Registry.standard name false = .ok d := by
  obtain ⟨f, hf, unsigned, rfl⟩ := Declaration.declarable_of_nameOf h
  obtain rfl := Except.ok.inj ((Declaration.nameOf_member hf unsigned).symm.trans h)
  obtain ⟨d, hread, -⟩ := Declaration.exists_read_member hf unsigned none false
  exact ⟨d, hread⟩

/-- A parameter can be declared if and only if the name of its type can be read. -/
theorem Parameter.exists_declaration_iff {p : Parameter} :
    (∃ text, p.declaration = .ok text) ↔
      ∃ d, Declaration.read Registry.standard p.typeName false = .ok d := by
  constructor
  · rintro ⟨text, h⟩
    obtain ⟨d, hd, -⟩ := bind_eq_ok.mp h
    exact ⟨d, liftType_ok hd⟩
  · rintro ⟨d, hd⟩
    obtain ⟨name, hname⟩ := exists_nameOf_read hd
    cases hlength : Declaration.writtenLength d.native p.length with
    | none =>
      exact ⟨name, by simp [declaration, Declaration.write, liftType, hd, hname, hlength]⟩
    | some n =>
      exact ⟨_, by simp [declaration, Declaration.write, liftType, hd, hname, hlength]; rfl⟩

/-! ### Routine parameters -/

/-- A routine parameter takes a statement's parameter: its direction, its name under the prefix, and
its declaration. -/
def RoutineParameter.Takes (r : RoutineParameter) (p : Parameter) : Prop :=
  r.direction = p.direction ∧ r.name = "p_" ++ p.name ∧ p.declaration = .ok r.declaration

theorem RoutineParameter.ofParameter_eq_ok {p : Parameter} {r : RoutineParameter} :
    ofParameter p = .ok r ↔ r.Takes p := by
  rw [ofParameter, bind_eq_ok]
  constructor
  · rintro ⟨declaration, hdeclaration, h⟩
    obtain rfl := pure_eq_ok.mp h
    exact ⟨rfl, rfl, hdeclaration⟩
  · rintro ⟨hdirection, hname, hdeclaration⟩
    exact ⟨r.declaration, hdeclaration, by rw [← hdirection, routineParameterName, ← hname]; rfl⟩

/-- A list of parameters can be taken if each of them can be declared. -/
theorem RoutineParameter.exists_takes {parameters : List Parameter}
    (h : ∀ p ∈ parameters, ∃ text, p.declaration = .ok text) :
    ∃ routine, List.Forall₂ (fun p r => RoutineParameter.Takes r p) parameters routine := by
  induction parameters with
  | nil => exact ⟨[], .nil⟩
  | cons p rest ih =>
    obtain ⟨⟨text, htext⟩, hrest⟩ := List.forall_mem_cons.mp h
    obtain ⟨routine, hroutine⟩ := ih hrest
    exact ⟨⟨p.direction, "p_" ++ p.name, text⟩ :: routine, .cons ⟨rfl, rfl, htext⟩ hroutine⟩

theorem Statement.parameter?_eq_none {s : Statement} {name : String} :
    s.parameter? name = none ↔ ∀ p ∈ s.parameters, p.name ≠ name := by
  simp [parameter?]

/-! ### Procedures -/

namespace Procedure

variable {database name : String} {s : Statement} {p : Procedure}

/-- When there is a procedure of a statement, and what is in it. -/
theorem ofStatement_ok : ofStatement database name s = .ok p ↔
    NameKind.database.admits database = true ∧ NameKind.procedure.admits name = true ∧
      (∀ n ∈ s.placeholders, ∃ q ∈ s.parameters, q.name = n) ∧
      ∃ routine, List.Forall₂ (fun q r => RoutineParameter.Takes r q) s.parameters routine ∧
        p = ⟨database, name, routine, lines ((Segment.split s.text.toList).flatMap refer)⟩ := by
  have htakes {routine : List RoutineParameter} :
      s.parameters.mapM RoutineParameter.ofParameter = .ok routine ↔
        List.Forall₂ (fun q r => RoutineParameter.Takes r q) s.parameters routine := by
    simp only [mapM_eq_ok, RoutineParameter.ofParameter_eq_ok]
  have hbound : s.placeholders.find? (fun n => (s.parameter? n).isNone) = none ↔
      ∀ n ∈ s.placeholders, ∃ q ∈ s.parameters, q.name = n := by
    simp [List.find?_eq_none, Statement.parameter?_eq_none]
  have hbody : (substitute parameterReference s.text).toList =
      (Segment.split s.text.toList).flatMap refer := toList_substitute s.text
  rw [← hbound, ← hbody]
  constructor
  · intro h
    obtain ⟨⟨⟩, hdatabase, h₁⟩ := bind_eq_ok.mp h
    obtain ⟨⟨⟩, hname, h₂⟩ := bind_eq_ok.mp h₁
    obtain ⟨routine, hroutine, h₃⟩ := bind_eq_ok.mp h₂
    refine ⟨checkName_ok.mp hdatabase, checkName_ok.mp hname, ?_⟩
    cases hfind : s.placeholders.find? (fun n => (s.parameter? n).isNone) with
    | some unbound =>
      rw [hfind] at h₃
      exact absurd h₃ throw_ne_ok
    | none =>
      rw [hfind] at h₃
      exact ⟨rfl, routine, htakes.mp hroutine, (pure_eq_ok.mp h₃).symm⟩
  · rintro ⟨hdatabase, hname, hfind, routine, hroutine, rfl⟩
    refine bind_eq_ok.mpr ⟨⟨⟩, checkName_ok.mpr hdatabase, bind_eq_ok.mpr ⟨⟨⟩,
      checkName_ok.mpr hname, bind_eq_ok.mpr ⟨routine, htakes.mpr hroutine, ?_⟩⟩⟩
    rw [hfind]
    rfl

/-- The text of a routine parameter. -/
def spelled (r : RoutineParameter) : String :=
  r.direction.keyword ++ " `" ++ r.name ++ "` " ++ r.declaration

/-- The text between the parentheses: each parameter on a line of its own. -/
def parameterList : List RoutineParameter → String
  | [] => ""
  | parameters => "\n\t" ++ ",\n\t".intercalate (parameters.map spelled) ++ "\n"

/-- A statement, or a script that sets another delimiter around it. -/
def delimited (alternate : Bool) (text : String) : String :=
  if alternate then "DELIMITER $$\n" ++ text ++ "$$\nDELIMITER ;" else text ++ ";"

theorem text_joined (separator : List Lexeme) (parts : List (List Lexeme)) :
    Lexeme.text (Lexeme.joined separator parts) =
      (Lexeme.text separator).intercalate (parts.map Lexeme.text) := by
  induction parts with
  | nil => rfl
  | cons first rest ih =>
    cases rest with
    | nil => simp [Lexeme.joined]
    | cons second rest =>
      rw [Lexeme.joined_cons_cons, Lexeme.text_append, Lexeme.text_append, ih, List.map_cons,
        List.map_cons, List.map_cons, String.intercalate_cons_cons]

theorem text_parameters (parameters : List RoutineParameter) :
    Lexeme.text (if parameters.isEmpty then [mark ")"]
      else [blank "\n\t"] ++ Lexeme.commaLines (parameters.map RoutineParameter.lexemes) ++
        [blank "\n", mark ")"]) = parameterList parameters ++ ")" := by
  have hspelled : (parameters.map RoutineParameter.lexemes).map Lexeme.text =
      parameters.map spelled := by
    rw [List.map_map]
    refine List.map_congr_left fun r _ => ?_
    rw [← String.toList_inj]
    simp [RoutineParameter.lexemes, Lexeme.text, Lexeme.spell, Lexeme.space, spelled]
  cases parameters with
  | nil => rfl
  | cons r rest =>
    have hlines : Lexeme.text (Lexeme.commaLines ((r :: rest).map RoutineParameter.lexemes)) =
        ",\n\t".intercalate ((r :: rest).map spelled) := hspelled ▸ text_joined _ _
    have hclose : Lexeme.text [blank "\n", mark ")"] = "\n" ++ ")" := rfl
    rw [if_neg (by simp), Lexeme.text_append, Lexeme.text_append, hlines, hclose,
      ← String.append_assoc]
    rfl

theorem text_eq (p : Procedure) (alternate : Bool) : p.text alternate = delimited alternate
    ("CREATE PROCEDURE `" ++ p.database ++ "`.`" ++ p.name ++ "`(" ++ parameterList p.parameters ++
      ")\nBEGIN\n" ++ p.bodyText ++ "\nEND") := by
  have hopen : Lexeme.text (words ["CREATE", "PROCEDURE"] ++ [space] ++
      qualified p.database p.name ++ [mark "("]) =
        "CREATE PROCEDURE `" ++ p.database ++ "`.`" ++ p.name ++ "`(" := by
    rw [← String.toList_inj]
    simp [Lexeme.text, words, qualified, Lexeme.spell, Lexeme.space]
  have hcore : p.core = "CREATE PROCEDURE `" ++ p.database ++ "`.`" ++ p.name ++ "`(" ++
      parameterList p.parameters ++ ")\nBEGIN\n" ++ p.bodyText ++ "\nEND" := by
    rw [core, headLexemes, Lexeme.text_append, hopen, text_parameters, ← String.toList_inj]
    simp
  rw [← hcore, text, delimited, alternateDelimiter, ← String.toList_inj]
  cases alternate <;> simp

end Procedure

/-! ### Parameters of built statements -/

/-- The type of a parameter has the name of a server type. -/
def Parameter.Declared (p : Parameter) : Prop :=
  ∃ native, Registry.standard.nameOf native = .ok p.typeName

/-- A parameter that the builders put into statements: that of a column, or one with a checked name
and a host type. -/
inductive Parameter.Made (p : Parameter) : Prop
  | column {f : Field} (made : f.parameter = .ok p)
  | named {name : String} {host : HostType} {length : Option UInt32}
      (checked : isParameterName name = true) (made : Parameter.ofHost name host length = .ok p)

section Made

variable {m : RowModel} {p : Parameter} {parameters : List Parameter}

theorem declared_ofNative {name : String} {native : NativeType} {length : Option UInt32}
    (h : Parameter.ofNative name native length = .ok p) : p.Declared := by
  obtain ⟨typeName, htype, h₁⟩ := bind_eq_ok.mp h
  obtain rfl := pure_eq_ok.mp h₁
  exact ⟨_, liftType_ok htype⟩

theorem Parameter.Made.declared (h : p.Made) : p.Declared := by
  cases h with
  | column made =>
    obtain ⟨hreserved, hname, -⟩ := parameter_ok made
    rw [Field.parameter, hreserved, hname] at made
    obtain ⟨native, -, h₁⟩ := bind_eq_ok.mp made
    exact declared_ofNative h₁
  | named _ made =>
    obtain ⟨native, -, h₁⟩ := bind_eq_ok.mp made
    exact declared_ofNative h₁

theorem Parameter.Made.isParameterName (h : p.Made) : isParameterName p.name = true := by
  cases h with
  | column made =>
    obtain ⟨-, hname, heq⟩ := parameter_ok made
    rwa [heq]
  | named checked made => rwa [ofHost_ok made]

theorem made_addFilterParams {earlier : List Parameter} {params : List FilterParam}
    (hearlier : ∀ p ∈ earlier, p.Made)
    (hnames : ∀ name ∈ params.map FilterParam.name, isParameterName name = true)
    (h : addFilterParams earlier params = .ok parameters) : ∀ p ∈ parameters, p.Made := by
  induction params generalizing earlier with
  | nil => exact Except.ok.inj h ▸ hearlier
  | cons p rest ih =>
    obtain ⟨hname, hrest⟩ := List.forall_mem_cons.mp hnames
    rw [addFilterParams] at h
    split_ifs at h
    · exact ih hearlier hrest h
    · obtain ⟨q, hq, h₁⟩ := bind_eq_ok.mp h
      refine ih (fun p hp => ?_) hrest h₁
      obtain hp | hp := List.mem_append.mp hp
      · exact hearlier p hp
      · exact List.mem_singleton.mp hp ▸ .named hname hq

theorem made_filterParts {filter : Option Filter} (hf : ∀ f ∈ filter, f.Accepted)
    {conditions : List (List Lexeme)} (h : filterParts m filter = .ok (conditions, parameters)) :
    ∀ p ∈ parameters, p.Made := by
  obtain ⟨-, -, rfl⟩ | ⟨f, condition, hsome, -, -, hadded⟩ := filterParts_ok h
  · simp
  · exact made_addFilterParams (by simp) (hf f hsome).isParameterName hadded

theorem made_assignments {fields : List Field} {written : List Assignment}
    (h : assignments fields = .ok (written, parameters)) : ∀ p ∈ parameters, p.Made := by
  obtain ⟨parts, hparts, -, rfl⟩ := assignments_ok h
  intro p hp
  obtain ⟨⟨assignment, parameter⟩, hpart, rfl⟩ := List.mem_filterMap.mp hp
  obtain ⟨f, -, hmade⟩ := exists_mem_of_forall₂ hparts hpart
  obtain ⟨-, ⟨-, -, hnone⟩ | ⟨-, -, q, hq, hsome⟩⟩ := assignment_ok hmade
  · cases hnone
  · exact Option.some.inj hsome ▸ .column hq

/-- The parameters of a built statement are those of columns, of its filter and of paging. -/
theorem Statement.Built.made {s : Statement} (h : s.Built) : ∀ p ∈ s.parameters, p.Made := by
  cases h with
  | selectTop accepted made =>
    obtain ⟨_, _, _, parameters, _, count, -, hparts, -, hcount, rfl⟩ := Compiler.selectTop_ok made
    have hpaging : count.Made := .named (by decide) hcount
    refine List.forall_mem_append.mpr ⟨made_filterParts accepted hparts, ?_⟩
    simpa using hpaging
  | selectPage accepted made =>
    obtain ⟨_, _, _, _, _, parameters, ascending, start, count, -, -, -, hparts, hascending, hstart,
      hcount, rfl⟩ := Compiler.selectPage_ok made
    have hpaging : ascending.Made ∧ start.Made ∧ count.Made :=
      ⟨.named (by decide) hascending, .named (by decide) hstart, .named (by decide) hcount⟩
    refine List.forall_mem_append.mpr ⟨made_filterParts accepted hparts, ?_⟩
    simpa using hpaging
  | count accepted made =>
    obtain ⟨_, _, parameters, -, hparts, rfl⟩ := Compiler.count_ok made
    exact made_filterParts accepted hparts
  | insert made =>
    obtain ⟨_, _, parameters, -, hwritten, rfl⟩ := Compiler.insert_ok made
    exact made_assignments hwritten
  | update accepted made =>
    obtain ⟨_, _, own, _, parameters, -, hwritten, -, hadded, rfl⟩ := Compiler.update_ok made
    exact made_addFilterParams (made_assignments hwritten) accepted.isParameterName hadded
  | delete accepted made =>
    obtain ⟨_, _, parameters, -, -, hadded, rfl⟩ := Compiler.delete_ok made
    exact made_addFilterParams (by simp) accepted.isParameterName hadded
  | createTable made =>
    obtain ⟨_, _, -, -, rfl⟩ := Compiler.createTable_ok made
    exact fun p hp => absurd hp List.not_mem_nil
  | addColumn made =>
    obtain ⟨_, _, _, _, _, -, -, -, -, -, rfl⟩ := Compiler.addColumn_ok made
    exact fun p hp => absurd hp List.not_mem_nil
  | dropColumn made =>
    obtain ⟨-, -, -, rfl⟩ := dropColumn_ok made
    exact fun p hp => absurd hp List.not_mem_nil
  | dropProcedure made =>
    obtain ⟨-, -, rfl⟩ := dropProcedure_ok made
    exact fun p hp => absurd hp List.not_mem_nil

end Made

/-! ### Placeholders of built statements -/

theorem Lexeme.Contained.notMem_at {l : Lexeme} (h : l.Contained) (hnone : l.parameter? = none) :
    '@' ∉ l.spell.toList := by
  refine fun hat => absurd (h.isStatementChar ?_ _ hat) (by decide)
  rintro name rfl
  cases hnone

/-- A statement of contained lexemes, none of which is a placeholder, has no placeholder. -/
theorem Statement.placeholders_eq_nil {body : List Lexeme} (h : AllContained body)
    (hnames : names body = []) (parameters : List Parameter) :
    (ofBody body parameters).placeholders = [] := by
  have hbody : '@' ∉ (Lexeme.text body).toList := by
    induction body with
    | nil => simp
    | cons l ls ih =>
      obtain ⟨hfirst, hrest⟩ := List.forall_mem_cons.mp h
      have hnone := List.filterMap_eq_nil_iff.mp hnames
      rw [Lexeme.toList_text_cons, List.mem_append, not_or]
      refine ⟨hfirst.notMem_at (hnone l (by simp)), ih hrest ?_⟩
      exact List.filterMap_eq_nil_iff.mpr fun l' hl' => hnone l' (by simp [hl'])
  refine Markless.placeholders_eq_nil (.of_notMem ?_)
  rw [ofBody, ofLexemes, Lexeme.text_append, String.toList_append, List.mem_append, not_or]
  exact ⟨hbody, by decide⟩

theorem names_definition (d : ColumnDefinition) : names d.lexemes = [] := by
  obtain ⟨column, declaration, nullable, autoIncrement, defaultsToNow⟩ := d
  cases nullable <;> cases autoIncrement <;> cases defaultsToNow <;> rfl

theorem names_key (k : KeyDefinition) : names k.lexemes = [] := by
  cases k with
  | primary columns =>
    have hcolumns : names (Lexeme.commaSeparated (columns.map fun c => [.name c])) = [] := by
      refine (names_joined rfl _).trans ?_
      simp [List.flatMap_map, names, Lexeme.parameter?]
    rw [KeyDefinition.lexemes, names_append, names_append, hcolumns]
    rfl
  | unique index column => rfl

theorem names_tableDefinition (d : TableDefinition) : names d.lexemes = [] := by
  rw [TableDefinition.lexemes, names_commaLines, List.flatMap_append, List.flatMap_map,
    List.flatMap_map]
  simp [names_definition, names_key]

theorem names_position (p : ColumnPosition) : names p.lexemes = [] := by
  cases p <;> rfl

theorem names_createTable {c : Compiler} {m : RowModel} {table : List Lexeme}
    (htable : c.tableLexemes m = .ok table) (d : TableDefinition) :
    names (createTableBody table d) = [] := by
  simp only [createTableBody, names_append, names_table htable, names_tableDefinition]
  rfl

theorem names_addColumn {c : Compiler} {m : RowModel} {table : List Lexeme}
    (htable : c.tableLexemes m = .ok table) (d : ColumnDefinition) (p : ColumnPosition) :
    names (addColumnBody table d p) = [] := by
  simp only [addColumnBody, alterTable, names_append, names_table htable, names_definition,
    names_position]
  rfl

/-- The text of a built statement names no others than its parameters. -/
theorem Statement.Built.bound {s : Statement} (h : s.Built) :
    ∀ n ∈ s.placeholders, ∃ p ∈ s.parameters, p.name = n := by
  have onRows {m : RowModel} (hrows : s.OnRows m) :
      ∀ n ∈ s.placeholders, ∃ p ∈ s.parameters, p.name = n := fun n hn =>
    List.mem_map.mp ((hrows.agrees.1 n).mp hn)
  have plain (hnone : s.placeholders = []) :
      ∀ n ∈ s.placeholders, ∃ p ∈ s.parameters, p.name = n := by simp [hnone]
  cases h with
  | selectTop accepted made => exact onRows (.selectTop accepted made)
  | selectPage accepted made => exact onRows (.selectPage accepted made)
  | count accepted made => exact onRows (.count accepted made)
  | insert made => exact onRows (.insert made)
  | update accepted made => exact onRows (.update accepted made)
  | delete accepted made => exact onRows (.delete accepted made)
  | createTable made =>
    obtain ⟨definition, table, hdefinition, htable, rfl⟩ := Compiler.createTable_ok made
    exact plain (placeholders_eq_nil (contained_createTable (contained_table htable)
      (contained_tableDefinition hdefinition)) (names_createTable htable definition) [])
  | addColumn made =>
    obtain ⟨index, f, position, table, definition, -, -, hposition, htable, hdefinition, rfl⟩ :=
      Compiler.addColumn_ok made
    exact plain (placeholders_eq_nil (contained_addColumn (contained_table htable)
      (contained_definition hdefinition).2.2 (contained_position hposition))
      (names_addColumn htable definition position) [])
  | dropColumn made =>
    obtain ⟨hdatabase, htable, hcolumn, rfl⟩ := dropColumn_ok made
    exact plain (placeholders_eq_nil (contained_dropColumn hdatabase htable hcolumn) rfl [])
  | dropProcedure made =>
    obtain ⟨hdatabase, hname, rfl⟩ := dropProcedure_ok made
    exact plain (placeholders_eq_nil (contained_dropProcedure hdatabase hname) rfl [])

/-! ### What a procedure carries -/

namespace Procedure

variable {database name : String} {s t : Statement} {alternate : Bool}

theorem create_ok : create database name s alternate = .ok t ↔
    ∃ p, ofStatement database name s = .ok p ∧ t = ⟨p.text alternate, s.parameters⟩ := by
  rw [create, bind_eq_ok]
  exact exists_congr fun p => and_congr_right fun _ => pure_eq_ok.trans eq_comm

theorem exists_create_iff : (∃ t, create database name s alternate = .ok t) ↔
    NameKind.database.admits database = true ∧ NameKind.procedure.admits name = true ∧
      (∀ p ∈ s.parameters, ∃ d, Declaration.read Registry.standard p.typeName false = .ok d) ∧
      ∀ n ∈ s.placeholders, ∃ p ∈ s.parameters, p.name = n := by
  constructor
  · rintro ⟨t, h⟩
    obtain ⟨p, hp, -⟩ := create_ok.mp h
    obtain ⟨hdatabase, hname, hbound, routine, hroutine, -⟩ := ofStatement_ok.mp hp
    refine ⟨hdatabase, hname, fun q hq => ?_, hbound⟩
    obtain ⟨r, -, -, -, hdeclared⟩ := exists_mem_of_forall₂ hroutine.flip hq
    exact Parameter.exists_declaration_iff.mp ⟨_, hdeclared⟩
  · rintro ⟨hdatabase, hname, hread, hbound⟩
    obtain ⟨routine, hroutine⟩ := RoutineParameter.exists_takes fun q hq =>
      Parameter.exists_declaration_iff.mpr (hread q hq)
    exact ⟨_, create_ok.mpr
      ⟨_, ofStatement_ok.mpr ⟨hdatabase, hname, hbound, routine, hroutine, rfl⟩, rfl⟩⟩

/-- Of a built statement, there is a procedure under all names. -/
theorem exists_create_of_built (hs : s.Built) (hdatabase : NameKind.database.admits database = true)
    (hname : NameKind.procedure.admits name = true) :
    ∃ t, create database name s alternate = .ok t := by
  refine exists_create_iff.mpr ⟨hdatabase, hname, fun p hp => ?_, hs.bound⟩
  obtain ⟨native, hnative⟩ := (hs.made p hp).declared
  exact read_of_nameOf hnative

/-- What a statement that creates a procedure carries of the statement in its body. -/
structure Carries (database name : String) (alternate : Bool) (s t : Statement) : Prop where
  parameters : t.parameters = s.parameters
  /-- The routine takes the parameters one by one. Its body is the text, line by line behind a tab,
  where each placeholder is the name of its routine parameter, and no placeholder is left. -/
  text : ∃ (routine : List RoutineParameter) (segments : List Segment) (lines : List (List Char))
      (body : String),
    List.Forall₂ (fun p r => RoutineParameter.Takes r p) s.parameters routine ∧
    Segment.Maximal segments ∧ Segment.textOf segments = s.text.toList ∧
    LinesOf (segments.flatMap refer) lines ∧
    body.toList = List.intercalate ['\n'] (lines.map ('\t' :: ·)) ∧ placeholders body = [] ∧
    t.text = delimited alternate ("CREATE PROCEDURE `" ++ database ++ "`.`" ++ name ++ "`(" ++
      parameterList routine ++ ")\nBEGIN\n" ++ body ++ "\nEND")

theorem carries_create (h : create database name s alternate = .ok t) :
    Carries database name alternate s t := by
  obtain ⟨p, hp, rfl⟩ := create_ok.mp h
  obtain ⟨-, -, -, routine, hroutine, rfl⟩ := ofStatement_ok.mp hp
  obtain ⟨hmaximal, htext⟩ := Segment.split_eq_iff.mp (Eq.refl (Segment.split s.text.toList))
  have hlines := linesOf_lines ((Segment.split s.text.toList).flatMap refer)
  let p : Procedure :=
    ⟨database, name, routine, lines ((Segment.split s.text.toList).flatMap refer)⟩
  have hbody : p.bodyText.toList = List.intercalate ['\n'] (p.body.map ('\t' :: ·)) :=
    String.toList_ofList
  exact ⟨rfl, routine, _, p.body, p.bodyText, hroutine, hmaximal, htext, hlines, hbody,
    placeholders_indented hmaximal hlines hbody, text_eq p alternate⟩

/-- Whatever the statement is, there is a procedure of it if and only if both names are names, the
type of each parameter can be read and each placeholder is a parameter. The procedure carries the
statement. Of a built statement, there is a procedure under all names. -/
theorem create_exact (database name : String) (s : Statement) (alternate : Bool) :
    ((∃ t, create database name s alternate = .ok t) ↔
      NameKind.database.admits database = true ∧ NameKind.procedure.admits name = true ∧
        (∀ p ∈ s.parameters, ∃ d, Declaration.read Registry.standard p.typeName false = .ok d) ∧
        ∀ n ∈ s.placeholders, ∃ p ∈ s.parameters, p.name = n) ∧
    (∀ t, create database name s alternate = .ok t → Carries database name alternate s t) ∧
    (s.Built → NameKind.database.admits database = true → NameKind.procedure.admits name = true →
      ∃ t, create database name s alternate = .ok t) :=
  ⟨exists_create_iff, fun _ => carries_create, exists_create_of_built⟩

/-- The procedure of a delete. -/
theorem create_exact_delete :
    ∃ s t, s.Built ∧ create "shop" "drop_low" s false = .ok t ∧
      Carries "shop" "drop_low" false s t ∧
      t.text = "CREATE PROCEDURE `shop`.`drop_low`(\n\tIN `p_Least` int\n)\nBEGIN\n" ++
        "\tDELETE FROM `shop`.`stock`\n\tWHERE (`LEFT_OVER` < `p_Least`);\nEND;" := by
  have hparse : Filter.parse "row => row.LeftOver < Least" [⟨"Least", ⟨.i32, false⟩⟩] =
      .ok ⟨.compare .lt (.field "LeftOver") (.param "Least"), [⟨"Least", ⟨.i32, false⟩⟩]⟩ := rfl
  have hmade : Compiler.delete ⟨"shop", by decide⟩
      ⟨"Stock", "stock", [{ property := "LeftOver", host := ⟨.i32, false⟩ }]⟩
      ⟨.compare .lt (.field "LeftOver") (.param "Least"), [⟨"Least", ⟨.i32, false⟩⟩]⟩ =
        .ok ⟨"DELETE FROM `shop`.`stock`\nWHERE (`LEFT_OVER` < @Least);",
          [⟨"Least", "int", none, .input⟩]⟩ := by
    decide +kernel
  have hbuilt : Statement.Built _ := .delete (.parse hparse) hmade
  obtain ⟨-, hcarries, hexists⟩ := create_exact "shop" "drop_low"
    ⟨"DELETE FROM `shop`.`stock`\nWHERE (`LEFT_OVER` < @Least);",
      [⟨"Least", "int", none, .input⟩]⟩ false
  obtain ⟨t, ht⟩ := hexists hbuilt (by decide) (by decide)
  refine ⟨_, t, hbuilt, ht, hcarries t ht, ?_⟩
  have hcreated : (create "shop" "drop_low"
      ⟨"DELETE FROM `shop`.`stock`\nWHERE (`LEFT_OVER` < @Least);",
        [⟨"Least", "int", none, .input⟩]⟩ false).map Statement.text = .ok
      ("CREATE PROCEDURE `shop`.`drop_low`(\n\tIN `p_Least` int\n)\nBEGIN\n" ++
        "\tDELETE FROM `shop`.`stock`\n\tWHERE (`LEFT_OVER` < `p_Least`);\nEND;") := by
    decide +kernel
  rw [ht] at hcreated
  exact Except.ok.inj hcreated

end Procedure

end TypedSql
