/-
Runs of the catalog: operations one after the other, from the empty catalog on, each of them asked
for on an object that the catalog showed before.

* `Entry.mem_merge`, `Entry.eq_of_mem_merge` — what a fresh list adds is new, and numbered once;
* `Run.against` — whatever the server answers, operations make a run;
* `Run.steps` — the turns of a run are steps, each of which moves the catalog as its part does;
* `Steps.numbered` — what every step keeps: an object is found by its number, and nothing is known
  below a number that no object has.
-/
import TypedSql.Proofs.CatalogSteps

namespace TypedSql

/-! ### Numbers of a fresh list -/

namespace Entry

variable {α : Type} [DecidableEq α] {old : List (Entry α)} {next : Nat} {fresh : List α}
  {entry : Entry α}

/-- What stands in a fresh list was known, or it has a free number. -/
theorem mem_merge (h : entry ∈ (merge old next fresh).1) :
    entry ∈ old ∨ next ≤ entry.id ∧ entry.id < (merge old next fresh).2 := by
  induction fresh generalizing next with
  | nil => simp [merge] at h
  | cons a rest ih =>
    rw [merge] at h ⊢
    cases hfind : old.find? (fun known => known.value == a) with
    | some known =>
      simp only [hfind, List.mem_cons] at h ⊢
      obtain rfl | h := h
      · exact .inl (List.mem_of_find?_eq_some hfind)
      · exact ih h
    | none =>
      simp only [hfind, List.mem_cons] at h ⊢
      obtain rfl | h := h
      · exact .inr ⟨Nat.le_refl _, le_merge old (next + 1) rest⟩
      · obtain h | ⟨hle, hlt⟩ := ih h
        · exact .inl h
        · exact .inr ⟨by omega, hlt⟩

/-- A free number is given once. -/
theorem eq_of_mem_merge (hold : ∀ known ∈ old, known.id < next) {other : Entry α}
    (h : entry ∈ (merge old next fresh).1) (hother : other ∈ (merge old next fresh).1)
    (hid : entry.id = other.id) (hfree : next ≤ entry.id) : entry = other := by
  induction fresh generalizing next with
  | nil => simp [merge] at h
  | cons a rest ih =>
    have above {m : Nat} {e : Entry α} (he : e ∈ (merge old m rest).1) (hfree : next ≤ e.id) :
        m ≤ e.id := by
      obtain hknown | ⟨hle, -⟩ := mem_merge he
      · exact absurd (hold e hknown) (by omega)
      · exact hle
    rw [merge] at h hother
    cases hfind : old.find? (fun known => known.value == a) with
    | some known =>
      simp only [hfind, List.mem_cons] at h hother
      have hknown := hold known (List.mem_of_find?_eq_some hfind)
      obtain rfl | h := h
      · omega
      · obtain rfl | hother := hother
        · omega
        · exact ih hold h hother hfree
    | none =>
      simp only [hfind, List.mem_cons] at h hother
      obtain rfl | h := h
      · obtain rfl | hother := hother
        · rfl
        · have := above hother (hid ▸ hfree)
          simp only at hid
          omega
      · have hle := above h hfree
        obtain rfl | hother := hother
        · simp only at hid
          omega
        · exact ih (fun known hk => Nat.lt_succ_of_lt (hold known hk)) h hother hle

end Entry

open Dialogue (Path Watched)

namespace Catalog

variable {c c' : Catalog} {x y : Object} {l : Listing} {rows : List TextRow}

/-! ### Runs -/

/-- The catalog lists an object. -/
def Holds (c : Catalog) : Object → Prop
  | .database d => d ∈ c.databases
  | .table t => ∃ owner, t ∈ c.tables owner

/-- A turn of an operation that reads from a part. -/
structure Step where
  part : Part
  turn : Turn

/-- An object was listed at some time. -/
def Seen (steps : List Step) (x : Object) : Prop :=
  ∃ step ∈ steps, step.turn.after.Holds x

/-- An operation that was asked for, what was seen of it, and how far it came. -/
structure Performed where
  call : Call
  turns : List Turn
  outcome : Reach call.Result

/-- The turns of an operation, with what it reads from. -/
def Performed.steps (p : Performed) : List Step :=
  p.turns.map (Step.mk p.call.part)

/-- The turns of a run. -/
def stepsOf (history : List Performed) : List Step :=
  history.flatMap Performed.steps

/-- Operations one after the other, from the empty catalog on. An object on which an operation is
asked for was listed before, though it may be listed no more. -/
inductive Run : List Performed → Catalog → Prop
  | nil : Run [] {}
  | concat {history : List Performed} {c : Catalog} (earlier : Run history c) (p : Performed)
      (known : ∀ x ∈ p.call.part.object?, Seen (stepsOf history) x)
      (watched : Watched (p.call.task.run c) p.turns p.outcome) :
      Run (history ++ [p]) p.outcome.left

/-- Steps one after the other, from the empty catalog on. -/
inductive Steps : List Step → Catalog → Prop
  | nil : Steps [] {}
  | concat {steps : List Step} (step : Step) (earlier : Steps steps step.turn.before)
      (known : ∀ x ∈ step.part.object?, Seen steps x) (moves : step.part.Moves step.turn) :
      Steps (steps ++ [step]) step.turn.after

theorem Seen.append {steps : List Step} (h : Seen steps x) (more : List Step) :
    Seen (steps ++ more) x := by
  obtain ⟨step, hstep, hholds⟩ := h
  exact ⟨step, List.mem_append_left more hstep, hholds⟩

theorem seen_concat {steps : List Step} {step : Step} :
    Seen (steps ++ [step]) x ↔ Seen steps x ∨ step.turn.after.Holds x := by
  simp [Seen, or_and_right, exists_or]

/-- Turns that follow each other go on with a chain of steps. -/
theorem Steps.append {steps : List Step} {part : Part} {turns : List Turn} (h : Steps steps c)
    (known : ∀ x ∈ part.object?, Seen steps x) (path : Path c turns c')
    (moves : ∀ turn ∈ turns, part.Moves turn) : Steps (steps ++ turns.map (Step.mk part)) c' := by
  induction path generalizing steps with
  | nil s => simpa using h
  | cons turn behind ih =>
    obtain ⟨hfirst, hrest⟩ := List.forall_mem_cons.mp moves
    have hsteps : Steps (steps ++ [⟨part, turn⟩]) turn.after := h.concat ⟨part, turn⟩ known hfirst
    simpa using ih hsteps (fun x hx => (known x hx).append _) hrest

theorem Run.steps {history : List Performed} (run : Run history c) : Steps (stepsOf history) c := by
  induction run with
  | nil => exact .nil
  | @concat history c earlier p known watched ih =>
    obtain ⟨hcurrent, hfollows⟩ := p.call.follows c
    have hpath := watched.path
    rw [hcurrent] at hpath
    rw [stepsOf, List.flatMap_append, List.flatMap_singleton]
    exact ih.append known hpath (hfollows.moves watched)

/-- An operation as it goes against a server. -/
def Performed.against {ε : Type} (answer : (q : CatalogRequest) → ε → ε × Option q.Answer)
    (call : Call) (c : Catalog) (e : ε) : Performed :=
  ⟨call, (call.task.run c).watch answer e, ((call.task.run c).run answer e).2⟩

/-- Whatever the server answers, a run goes on with an operation as it goes. -/
theorem Run.against {ε : Type} {history : List Performed} (run : Run history c)
    (answer : (q : CatalogRequest) → ε → ε × Option q.Answer) (call : Call) (e : ε)
    (known : ∀ x ∈ call.part.object?, Seen (stepsOf history) x) :
    Run (history ++ [.against answer call c e]) (Performed.against answer call c e).outcome.left :=
  run.concat _ known (Dialogue.watched_watch answer _ e)

/-! ### What a list adds -/

theorem tables_learnTables (c : Catalog) (d : Database) (names : List String) :
    (c.learnTables d names).tables d.id =
      (Entry.merge (c.tables d.id) c.next (names.map fun name => ⟨d.value, name⟩)).1 :=
  if_pos rfl

theorem tables_learnTables_of_ne {d : Database} {n : Nat} (h : n ≠ d.id) (c : Catalog)
    (names : List String) : (c.learnTables d names).tables n = c.tables n :=
  if_neg h

/-- Names that are listed, each once. -/
theorem nodup_listed (kind : NameKind) (rows : List TextRow) : (listed kind rows).Nodup :=
  (Text.pairwise_ordered _).imp fun h => ne_of_lt h

/-- After a list came in, the objects are those that it names. -/
theorem names_learn (l : Listing) (rows : List TextRow) (c : Catalog) :
    (l.objects (l.learn rows c)).map Object.name = listed l.kind rows := by
  cases l with
  | databases =>
    have h := Entry.values_merge c.databases c.next (listed .database rows)
    simpa [Listing.objects, Listing.learn, learnDatabases, Function.comp_def, Object.name,
      Listing.kind] using h
  | tables d =>
    have h := congrArg (List.map TableName.name) (Entry.values_merge (c.tables d.id) c.next
      ((listed .table rows).map fun name => ⟨d.value, name⟩))
    simpa [Listing.objects, Listing.learn, tables_learnTables, Function.comp_def, Object.name,
      Listing.kind] using h

/-- The tables that a list of a database names are tables of that database. -/
theorem owned_learnTables {d : Database} {names : List String} {t : Table}
    (h : t ∈ (c.learnTables d names).tables d.id) : t.value.database = d.value := by
  rw [tables_learnTables] at h
  have hvalue := List.mem_map_of_mem (f := Entry.value) h
  rw [Entry.values_merge] at hvalue
  obtain ⟨name, -, hname⟩ := List.mem_map.mp hvalue
  rw [← hname]

theorem next_le_learn (l : Listing) (rows : List TextRow) (c : Catalog) :
    c.next ≤ (l.learn rows c).next := by
  cases l with
  | databases => exact Entry.le_merge _ _ _
  | tables d => exact Entry.le_merge _ _ _

/-- A list that came in changes the objects of no other list. -/
theorem objects_learn (l l' : Listing) (rows : List TextRow) (c : Catalog) :
    l'.objects (l.learn rows c) = l'.objects c ∨
      (Part.listing l').object?.map Object.number = (Part.listing l).object?.map Object.number ∧
        l'.objects (l.learn rows c) = l.objects (l.learn rows c) := by
  cases l with
  | databases =>
    cases l' with
    | databases => exact .inr ⟨rfl, rfl⟩
    | tables d' => exact .inl rfl
  | tables d =>
    cases l' with
    | databases => exact .inl rfl
    | tables d' =>
      by_cases h : d'.id = d.id
      · exact .inr ⟨congrArg some h, by rw [Listing.objects, h]; rfl⟩
      · exact .inl (congrArg (List.map Object.table) (tables_learnTables_of_ne h c _))

theorem Holds.of_mem_objects (h : x ∈ l.objects c) : c.Holds x := by
  cases l with
  | databases =>
    obtain ⟨d, hd, rfl⟩ := List.mem_map.mp h
    exact hd
  | tables owner =>
    obtain ⟨t, ht, rfl⟩ := List.mem_map.mp h
    exact ⟨owner.id, ht⟩

/-- What is listed after a list came in is in that list, or it was listed before. -/
theorem Holds.learn (h : (l.learn rows c).Holds x) :
    x ∈ l.objects (l.learn rows c) ∨ c.Holds x := by
  cases l with
  | databases =>
    cases x with
    | database d => exact .inl (List.mem_map_of_mem h)
    | table t => exact .inr h
  | tables d =>
    cases x with
    | database d' => exact .inr h
    | table t =>
      obtain ⟨owner, howner⟩ := h
      by_cases heq : owner = d.id
      · subst heq
        exact .inl (List.mem_map_of_mem howner)
      · exact .inr ⟨owner, tables_learnTables_of_ne heq c _ ▸ howner⟩

/-- What is in a list that came in was in it before, or it has a free number. -/
theorem mem_objects_learn (h : x ∈ l.objects (l.learn rows c)) :
    x ∈ l.objects c ∨ c.next ≤ x.number ∧ x.number < (l.learn rows c).next := by
  cases l with
  | databases =>
    obtain ⟨d, hd, rfl⟩ := List.mem_map.mp h
    obtain hold | ⟨hle, hlt⟩ := Entry.mem_merge hd
    · exact .inl (List.mem_map_of_mem hold)
    · exact .inr ⟨hle, hlt⟩
  | tables owner =>
    obtain ⟨t, ht, rfl⟩ := List.mem_map.mp h
    obtain hold | ⟨hle, hlt⟩ := Entry.mem_merge (tables_learnTables c owner _ ▸ ht)
    · exact .inl (List.mem_map_of_mem hold)
    · exact .inr ⟨hle, hlt⟩

/-- Objects of a list that came in differ by their numbers, if these were free. -/
theorem eq_of_mem_objects_learn (hold : ∀ z ∈ l.objects c, z.number < c.next)
    (hx : x ∈ l.objects (l.learn rows c)) (hy : y ∈ l.objects (l.learn rows c))
    (hnumber : x.number = y.number) (hfree : c.next ≤ x.number) : x = y := by
  cases l with
  | databases =>
    obtain ⟨d, hd, rfl⟩ := List.mem_map.mp hx
    obtain ⟨d', hd', rfl⟩ := List.mem_map.mp hy
    rw [Entry.eq_of_mem_merge (fun known hk => hold _ (List.mem_map_of_mem hk)) hd hd' hnumber hfree]
  | tables owner =>
    obtain ⟨t, ht, rfl⟩ := List.mem_map.mp hx
    obtain ⟨t', ht', rfl⟩ := List.mem_map.mp hy
    rw [Listing.learn, tables_learnTables] at ht ht'
    rw [Entry.eq_of_mem_merge (fun known hk => hold _ (List.mem_map_of_mem hk)) ht ht' hnumber hfree]

/-! ### What every step keeps -/

/-- Nothing is known below a number. -/
def Bare (c : Catalog) (n : Nat) : Prop :=
  c.tables n = [] ∧ c.columns n = [] ∧ c.indexes n = []

theorem Bare.learn {n : Nat} (h : c.Bare n)
    (hne : ∀ x ∈ (Part.listing l).object?, x.number ≠ n) (rows : List TextRow) :
    (l.learn rows c).Bare n := by
  cases l with
  | databases => exact h
  | tables owner => exact ⟨(tables_learnTables_of_ne (hne _ rfl).symm c _).trans h.1, h.2⟩

/-- What every step keeps. Objects have numbers of their own, below the next free one; the names in
a list differ; the tables of a database bear its name; nothing is known below other numbers. -/
structure Numbered (steps : List Step) (c : Catalog) : Prop where
  held : ∀ x, c.Holds x → Seen steps x
  below : ∀ x, Seen steps x → x.number < c.next
  unique : ∀ x y, Seen steps x → Seen steps y → x.number = y.number → x = y
  distinct : ∀ l : Listing, ((l.objects c).map Object.name).Nodup
  owned : ∀ d, Seen steps (.database d) → ∀ t ∈ c.tables d.id, t.value.database = d.value
  bare : ∀ n, (∀ x, Seen steps x → x.number ≠ n) → c.Bare n

variable {steps : List Step} {step : Step}

theorem Numbered.bare_of_le (h : Numbered steps c) {n : Nat} (hn : c.next ≤ n) : c.Bare n :=
  h.bare n fun x hx => (Nat.lt_of_lt_of_le (h.below x hx) hn).ne

theorem Numbered.mem_objects (h : Numbered steps c) (hx : x ∈ l.objects c) : Seen steps x :=
  h.held x (Holds.of_mem_objects hx)

/-- A step after which an object is an old one, or it has a free number of its own. -/
theorem Numbered.concat (h : Numbered steps c) (hnext : c.next ≤ step.turn.after.next)
    (hnumber : ∀ x, step.turn.after.Holds x → Seen steps x ∨
      c.next ≤ x.number ∧ x.number < step.turn.after.next ∧
        ∀ y, step.turn.after.Holds y → x.number = y.number → x = y)
    (hdistinct : ∀ l : Listing, ((l.objects step.turn.after).map Object.name).Nodup)
    (howned : ∀ d, Seen steps (.database d) ∨ step.turn.after.Holds (.database d) →
      ∀ t ∈ step.turn.after.tables d.id, t.value.database = d.value)
    (hbare : ∀ n, (∀ x, Seen steps x → x.number ≠ n) → step.turn.after.Bare n) :
    Numbered (steps ++ [step]) step.turn.after := by
  have hcases {x : Object} (hx : Seen (steps ++ [step]) x) : Seen steps x ∨
      step.turn.after.Holds x ∧ c.next ≤ x.number ∧ x.number < step.turn.after.next ∧
        ∀ y, step.turn.after.Holds y → x.number = y.number → x = y := by
    obtain hold | hholds := seen_concat.mp hx
    · exact .inl hold
    · exact (hnumber x hholds).imp_right fun hfree => ⟨hholds, hfree⟩
  refine ⟨fun x hx => seen_concat.mpr (.inr hx), fun x hx => ?_, fun x y hx hy heq => ?_, hdistinct,
    fun d hd => howned d (seen_concat.mp hd), fun n hn => hbare n fun x hx => hn x (hx.append _)⟩
  · obtain hold | ⟨-, -, hlt, -⟩ := hcases hx
    · exact Nat.lt_of_lt_of_le (h.below x hold) hnext
    · exact hlt
  · obtain hx | ⟨-, hx, -, hown⟩ := hcases hx
    · obtain hy | ⟨-, hy, -, -⟩ := hcases hy
      · exact h.unique x y hx hy heq
      · exact absurd (h.below x hx) (by omega)
    · obtain hy | ⟨hholds, -, -, -⟩ := hcases hy
      · exact absurd (h.below y hy) (by omega)
      · exact hown y hholds heq

/-- A step that lists nothing anew. -/
theorem Numbered.keep (h : Numbered steps c) (hdatabases : step.turn.after.databases = c.databases)
    (htables : step.turn.after.tables = c.tables) (hnext : c.next ≤ step.turn.after.next)
    (hbare : ∀ n, (∀ x, Seen steps x → x.number ≠ n) → step.turn.after.Bare n) :
    Numbered (steps ++ [step]) step.turn.after := by
  have hheld (x : Object) (hx : step.turn.after.Holds x) : Seen steps x := by
    refine h.held x ?_
    cases x with
    | database d => rwa [Holds, hdatabases] at hx
    | table t => rwa [Holds, htables] at hx
  refine h.concat hnext (fun x hx => .inl (hheld x hx)) (fun l => ?_) (fun d hd t ht => ?_) hbare
  · have hsame : l.objects step.turn.after = l.objects c := by
      cases l with
      | databases => rw [Listing.objects, hdatabases, Listing.objects]
      | tables d => rw [Listing.objects, htables, Listing.objects]
    exact hsame ▸ h.distinct l
  · exact h.owned d (hd.elim id (hheld _)) t (htables ▸ ht)

/-- A step that learns a list. -/
theorem Numbered.learn (h : Numbered steps c) (known : ∀ x ∈ (Part.listing l).object?, Seen steps x)
    (hafter : step.turn.after = l.learn rows c) : Numbered (steps ++ [step]) step.turn.after := by
  have hlisted {x : Object} (hx : (l.learn rows c).Holds x) :
      Seen steps x ∨ x ∈ l.objects (l.learn rows c) ∧ c.next ≤ x.number ∧
        x.number < (l.learn rows c).next := by
    obtain hmem | hbefore := hx.learn
    · exact (mem_objects_learn hmem).imp h.mem_objects fun hfree => ⟨hmem, hfree⟩
    · exact .inl (h.held x hbefore)
  obtain ⟨part, before, asked, after⟩ := step
  obtain rfl : after = l.learn rows c := hafter
  refine h.concat (next_le_learn l rows c) ?_ ?_ ?_ ?_
  · refine fun x hx => (hlisted hx).imp_right fun ⟨hmem, hle, hlt⟩ => ⟨hle, hlt, fun y hy heq => ?_⟩
    obtain hold | ⟨hmem', -, -⟩ := hlisted hy
    · exact absurd (h.below y hold) (by omega)
    · exact eq_of_mem_objects_learn (fun z hz => h.below z (h.mem_objects hz)) hmem hmem' heq hle
  · intro l'
    obtain hsame | ⟨-, hsame⟩ := objects_learn l l' rows c
    · exact hsame ▸ h.distinct l'
    · rw [hsame, names_learn]
      exact nodup_listed _ _
  · intro d hd t ht
    cases l with
    | databases =>
      obtain hseen | hmem := hd
      · exact h.owned d hseen t ht
      · obtain hseen | ⟨-, hfree, -⟩ := hlisted hmem
        · exact h.owned d hseen t ht
        · rw [show (Listing.databases.learn rows c).tables d.id = [] from
            (h.bare_of_le hfree).1] at ht
          simp at ht
    | tables owner =>
      have hseen : Seen steps (.database d) := hd.elim id fun hmem => h.held (.database d) hmem
      by_cases heq : d.id = owner.id
      · obtain rfl : d = owner := Object.database.inj (h.unique _ _ hseen (known _ rfl) heq)
        exact owned_learnTables ht
      · exact h.owned d hseen t (tables_learnTables_of_ne heq c _ ▸ ht)
  · exact fun n hn => (h.bare n hn).learn (fun x hx => hn x (known x hx)) rows

/-- What is known below a number stays if another one was set. -/
theorem setAt_eq_nil {α : Type} {f : Nat → List α} {place n : Nat} {as : List α} (h : f n = [])
    (hne : place ≠ n) : setAt f place as n = [] :=
  (if_neg hne.symm).trans h

theorem Numbered.moves {part : Part} {turn : Turn} (h : Numbered steps turn.before)
    (known : ∀ x ∈ part.object?, Seen steps x) (moves : part.Moves turn) :
    Numbered (steps ++ [⟨part, turn⟩]) turn.after := by
  cases moves with
  | @learned c c' rows read =>
    cases part with
    | listing l => exact h.learn known (Except.ok.inj read).symm
    | columns t =>
      obtain ⟨columns, -, rfl⟩ := map_eq_ok.mp read
      refine h.keep rfl rfl (Entry.le_merge _ _ _) fun n hn => ?_
      obtain ⟨htables, hcolumns, hindexes⟩ := h.bare n hn
      exact ⟨htables, setAt_eq_nil hcolumns (hn _ (known _ rfl)), hindexes⟩
    | indexes t =>
      obtain ⟨indexes, -, rfl⟩ := map_eq_ok.mp read
      refine h.keep rfl rfl (Entry.le_merge _ _ _) fun n hn => ?_
      obtain ⟨htables, hcolumns, hindexes⟩ := h.bare n hn
      exact ⟨htables, hcolumns, setAt_eq_nil hindexes (hn _ (known _ rfl))⟩
  | _ => exact h.keep rfl rfl (Nat.le_refl _) h.bare

theorem Steps.numbered (h : Steps steps c) : Numbered steps c := by
  have hnone (x : Object) : ¬ Seen [] x := fun ⟨_, hstep, _⟩ => List.not_mem_nil hstep
  have hheld (x : Object) : ¬ Holds {} x := by
    cases x <;> simp [Holds]
  induction h with
  | nil =>
    refine ⟨fun x hx => absurd hx (hheld x), fun x hx => absurd hx (hnone x),
      fun x y hx => absurd hx (hnone x), fun l => ?_, fun d hd => absurd hd (hnone _),
      fun n _ => ⟨rfl, rfl, rfl⟩⟩
    cases l <;> exact List.nodup_nil
  | concat step earlier known moves ih => exact ih.moves known moves

end Catalog

end TypedSql
