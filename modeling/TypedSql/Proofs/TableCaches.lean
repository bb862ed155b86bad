/-
What the catalog keeps of a table: its columns, and its indexes.

Both are kept alike (`Cache`). A look-up asks for the list once, and learns the whole of it or
nothing (`Cache.Goes`): a failure of the server, or the first row that is refused, is what the
operation gives, and the catalog is left as it was.

* `Entry.merge_self` — a list that came in already is merged into what is kept without a change;
* `Cache.goes` — whatever the server answers, a look-up goes one of four ways;
* `Run.caches_exact` — what every look-up does in a run, and what every column is like that was ever
  kept.
-/
import TypedSql.Proofs.CatalogResync
import TypedSql.Proofs.DeclarationGrammar

namespace TypedSql

/-! ### Merging again -/

namespace Entry

variable {α : Type} [DecidableEq α] {old : List (Entry α)} {next : Nat} {fresh : List α}
  {entry : Entry α}

/-- What is found by its value stays as it stands. -/
theorem merge_values {entries : List (Entry α)} (next : Nat)
    (h : ∀ entry ∈ entries, old.find? (fun e => e.value == entry.value) = some entry) :
    merge old next (entries.map Entry.value) = (entries, next) := by
  induction entries with
  | nil => rfl
  | cons entry rest ih =>
    obtain ⟨hentry, hrest⟩ := List.forall_mem_cons.mp h
    rw [List.map_cons, merge]
    simp only [hentry, ih hrest]

/-- A list that came in already, each value once, is merged without a change. -/
theorem merge_self {entries : List (Entry α)} (hdistinct : (entries.map Entry.value).Nodup)
    (next : Nat) : merge entries next (entries.map Entry.value) = (entries, next) :=
  merge_values next fun _ hentry => find?_eq_some hdistinct hentry

/-- An entry of a fresh list is the first old one with its value, or there is none. -/
theorem find?_of_mem_merge (h : entry ∈ (merge old next fresh).1) :
    old.find? (fun e => e.value == entry.value) = some entry ∨
      (∀ known ∈ old, known.value ≠ entry.value) ∧ next ≤ entry.id := by
  induction fresh generalizing next with
  | nil => exact absurd h List.not_mem_nil
  | cons a rest ih =>
    rw [merge] at h
    cases hfind : old.find? (fun e => e.value == a) with
    | some first =>
      simp only [hfind, List.mem_cons] at h
      obtain rfl | h := h
      · have hvalue : entry.value = a := by simpa using List.find?_some hfind
        exact .inl (hvalue ▸ hfind)
      · exact ih h
    | none =>
      -- a new entry takes the next number, and those behind it take greater ones
      simp only [hfind, List.mem_cons] at h
      obtain rfl | h := h
      · refine .inr ⟨fun known hknown heq => ?_, Nat.le_refl _⟩
        exact List.find?_eq_none.mp hfind known hknown (beq_iff_eq.mpr heq)
      · exact (ih h).imp_right fun hfresh => ⟨hfresh.1, Nat.le_of_succ_le hfresh.2⟩

end Entry

/-! ### Columns that were read -/

/-- The host type of a declaration has the null value if the declaration was read so. -/
theorem Declaration.host_nullable_of_read {text : String} {nullable : Bool} {d : Declaration}
    (h : read Registry.standard text nullable = .ok d) : d.host.nullable = nullable := by
  obtain ⟨name, arguments, unsigned, hspelled, f, hf, hname⟩ := spelled_of_read h
  obtain ⟨d', hread, hmeans⟩ := exists_read hspelled hf hname nullable
  obtain rfl : d = d' := Except.ok.inj (h.symm.trans hread)
  obtain ⟨g, -, -, -, -, hhost⟩ := hmeans.family
  rw [hhost]

/-- A column has the types and the length of its declaration, and if it is in the primary key, it is
unique. -/
structure Column.Declared (c : Column) : Prop where
  unique : c.isPrimary = true → c.isUnique = true
  nullable : c.host.nullable = c.nullable
  read : ∃ d, Declaration.read Registry.standard c.declaration c.nullable = .ok d ∧
    d.native = c.native ∧ d.host = c.host ∧ d.length = c.length

theorem Column.declared_of_ofRow? {row : TextRow} {c : Column}
    (h : ofRow? Registry.standard row = .ok c) : c.Declared := by
  obtain ⟨d, hread, hnative, hhost, hlength⟩ := read_of_ofRow? h
  refine ⟨isUnique_of_isPrimary, ?_, d, hread, hnative, hhost, hlength⟩
  rw [← hhost]
  exact Declaration.host_nullable_of_read hread

open Dialogue (Watched)

namespace Catalog

/-- What the catalog keeps of a table. -/
inductive Cache where
  | columns
  | indexes

namespace Cache

variable {k k' : Cache} {t t' : Table} {c : Catalog} {rows : List TextRow}

/-- What is kept. -/
def Value : Cache → Type
  | columns => Column
  | indexes => Index

instance : (k : Cache) → DecidableEq k.Value
  | columns => inferInstanceAs (DecidableEq Column)
  | indexes => inferInstanceAs (DecidableEq Index)

def valueName : (k : Cache) → k.Value → String
  | columns => Column.name
  | indexes => Index.name

def part : Cache → Table → Part
  | columns => .columns
  | indexes => .indexes

/-- The entries that are kept of a table. -/
def entries : (k : Cache) → Table → Catalog → List (Entry k.Value)
  | columns, t, c => c.columns t.id
  | indexes, t, c => c.indexes t.id

/-- What rows tell. -/
def read : (k : Cache) → List TextRow → Except CatalogError (List k.Value)
  | columns => List.mapM (Column.ofRow? Registry.standard)
  | indexes => Index.ofRows

/-- Keeps what was read. -/
def learn : (k : Cache) → Table → List k.Value → Catalog → Catalog
  | columns, t, values, c => c.learnColumns t values
  | indexes, t, values, c => c.learnIndexes t values

/-- A row cannot be read. -/
def Refuses : Cache → TextRow → CatalogError → Prop
  | columns, row, e => Column.ofRow? Registry.standard row = .error e
  | indexes, row, e => IndexPart.ofRow row = .error e

/-- A row cannot be read, and each row in front of it can. -/
def FirstRefused (k : Cache) (rows : List TextRow) (e : CatalogError) : Prop :=
  ∃ front row back, rows = front ++ row :: back ∧ (∀ r ∈ front, ∀ e, ¬ k.Refuses r e) ∧
    k.Refuses row e

/-! ### Reading -/

theorem read_eq_error_iff {e : CatalogError} : k.read rows = .error e ↔ k.FirstRefused rows e := by
  -- a list is read row by row, as far as it can be refused
  have hrows {α : Type} {f : TextRow → Except CatalogError α} :
      rows.mapM f = .error e ↔ ∃ front row back, rows = front ++ row :: back ∧
        (∀ r ∈ front, ∀ e, ¬ f r = .error e) ∧ f row = .error e := by
    have hok (x : Except CatalogError α) : (∃ a, x = .ok a) ↔ ∀ e, ¬ x = .error e := by
      cases x <;> simp
    simp only [mapM_eq_error, hok]
  cases k with
  | columns => exact hrows
  | indexes =>
    -- once the parts are read, nothing is refused
    have hparts : Index.ofRows rows = .error e ↔ rows.mapM IndexPart.ofRow = .error e := by
      rw [Index.ofRows, bind_eq_error]
      simp [pure, Except.pure]
    exact hparts.trans hrows

/-- Rows are read if none of them is refused. -/
theorem exists_read (h : ∀ row ∈ rows, ∀ e, ¬ k.Refuses row e) :
    ∃ values, k.read rows = .ok values := by
  cases hread : k.read rows with
  | ok values => exact ⟨values, rfl⟩
  | error e =>
    obtain ⟨front, row, back, rfl, -, hrow⟩ := read_eq_error_iff.mp hread
    exact absurd hrow (h row (by simp) e)

/-! ### Learning -/

theorem entries_learn (k : Cache) (t : Table) (values : List k.Value) (c : Catalog) :
    k.entries t (k.learn t values c) = (Entry.merge (k.entries t c) c.next values).1 := by
  cases k <;> exact if_pos rfl

theorem next_learn (k : Cache) (t : Table) (values : List k.Value) (c : Catalog) :
    (k.learn t values c).next = (Entry.merge (k.entries t c) c.next values).2 := by
  cases k <;> rfl

/-- What is kept of a table is found by its number. -/
theorem entries_congr (h : t'.id = t.id) : k.entries t' c = k.entries t c := by
  cases k with
  | columns => exact congrArg c.columns h
  | indexes => exact congrArg c.indexes h

theorem value_mem_of_mem_learn {values : List k.Value} {entry : Entry k.Value}
    (h : entry ∈ k.entries t (k.learn t values c)) : entry.value ∈ values := by
  rw [entries_learn] at h
  have hvalue := List.mem_map_of_mem (f := Entry.value) h
  rwa [Entry.values_merge] at hvalue

theorem entries_learn_of_ne (h : k' = k → t'.id ≠ t.id) (values : List k.Value) (c : Catalog) :
    k'.entries t' (k.learn t values c) = k'.entries t' c := by
  cases k with
  | columns =>
    cases k' with
    | columns => exact if_neg (h rfl)
    | indexes => rfl
  | indexes =>
    cases k' with
    | columns => rfl
    | indexes => exact if_neg (h rfl)

/-- What is learned is what is kept of its table, or something else, which stays. -/
theorem entries_learn_cases (k' k : Cache) (t' t : Table) (values : List k.Value) (c : Catalog) :
    (k' = k ∧ t'.id = t.id) ∨ k'.entries t' (k.learn t values c) = k'.entries t' c := by
  by_cases h : k' = k ∧ t'.id = t.id
  · exact .inl h
  · exact .inr (entries_learn_of_ne (fun hk ht => h ⟨hk, ht⟩) values c)

/-- Keeps entries of a table, with the next free number. -/
def put : (k : Cache) → Table → List (Entry k.Value) × Nat → Catalog → Catalog
  | columns, t, merged, c =>
    { c with columns := setAt c.columns t.id merged.1, next := merged.2 }
  | indexes, t, merged, c =>
    { c with indexes := setAt c.indexes t.id merged.1, next := merged.2 }

theorem learn_eq_put (values : List k.Value) (c : Catalog) :
    k.learn t values c = k.put t (Entry.merge (k.entries t c) c.next values) c := by
  cases k <;> rfl

theorem setAt_self {α : Type} (f : Nat → α) (place : Nat) : setAt f place (f place) = f := by
  funext n
  by_cases h : n = place <;> simp [setAt, h]

theorem put_self (k : Cache) (t : Table) (c : Catalog) :
    k.put t (k.entries t c, c.next) c = c := by
  cases k with
  | columns => simp only [put, entries, setAt_self]
  | indexes => simp only [put, entries, setAt_self]

/-- What was learned, each value once, is learned again without a change. -/
theorem learn_learn {values : List k.Value} (hdistinct : values.Nodup) (c : Catalog) :
    k.learn t values (k.learn t values c) = k.learn t values c := by
  have hvalues : (k.entries t (k.learn t values c)).map Entry.value = values := by
    rw [entries_learn]
    exact Entry.values_merge _ _ _
  generalize k.learn t values c = after at hvalues ⊢
  have hmerge := Entry.merge_self (hvalues.symm ▸ hdistinct) after.next
  rw [hvalues] at hmerge
  rw [learn_eq_put, hmerge, put_self]

/-! ### Look-ups -/

/-- An operation that asks for what is kept of a table, learns it and gives something of it. -/
def lookUp {α : Type} (k : Cache) (t : Table) (give : Catalog → α) : CatalogTask α := do
  let found ← Catalog.rows (k.part t).statement
  let values ← orFail (k.read found)
  modify (k.learn t values)
  return give (← get)

/-- The ways that a look-up goes. -/
inductive Goes {α : Type} (k : Cache) (t : Table) (give : Catalog → α) (c : Catalog) :
    List Turn → Reach α → Prop
  /-- The list was never answered, or it failed. -/
  | waits : Goes k t give c [⟨c, ⟨.rows (k.part t).statement, none⟩, c⟩] (.waiting c)
  | fails (e : ConnectionError) :
      Goes k t give c [⟨c, ⟨.rows (k.part t).statement, some (.error e)⟩, c⟩]
        (.finished c (.error (.connection e)))
  /-- The list came in, and a row was refused, or all were read. -/
  | refuses (rows : List TextRow) (e : CatalogError) (read : k.read rows = .error e) :
      Goes k t give c [⟨c, ⟨.rows (k.part t).statement, some (.ok rows)⟩, c⟩]
        (.finished c (.error e))
  | learns (rows : List TextRow) (values : List k.Value) (read : k.read rows = .ok values) :
      Goes k t give c
        [⟨c, ⟨.rows (k.part t).statement, some (.ok rows)⟩, k.learn t values c⟩]
        (.finished (k.learn t values c) (.ok (give (k.learn t values c))))

theorem goes {α : Type} {give : Catalog → α} {turns : List Turn} {o : Reach α}
    (w : Watched ((k.lookUp t give).run c) turns o) : k.Goes t give c turns o := by
  cases w with
  | abandoned => exact .waits
  | @answered _ _ _ answer rest _ behind =>
    cases answer with
    | error e =>
      cases behind
      exact .fails e
    | ok rows =>
      -- what follows the answer, from what the rows were read as
      let following (result : Except CatalogError (List k.Value)) : Underway α :=
        ExceptT.run (do
          let values ← orFail result
          modify (k.learn t values)
          return give (← get)) c
      have hbehind : Watched (following (k.read rows)) rest o := behind
      show k.Goes t give c (⟨c, ⟨_, some (.ok rows)⟩, (following (k.read rows)).current⟩ :: rest) o
      cases hread : k.read rows with
      | ok values =>
        rw [hread] at hbehind
        cases hbehind
        exact .learns rows values hread
      | error e =>
        rw [hread] at hbehind
        cases hbehind
        exact .refuses rows e hread

theorem lookUp_bind_pure {α β : Type} (give : Catalog → α) (f : α → β) :
    (k.lookUp t give >>= fun a => pure (f a)) = k.lookUp t fun c => f (give c) := by
  simp only [lookUp, bind_assoc, pure_bind]

/-- What an operation that looks up what is kept of a table gives. -/
inductive Gives : (call : Call) → Catalog → call.Result → Prop
  | column (t : Table) (name : String) (c : Catalog) :
      Gives (.getColumn t name) c
        ((c.columns t.id).find? fun entry => Text.sameIgnoringCase entry.value.name name)
  | columns (t : Table) (c : Catalog) : Gives (.allColumns t) c (c.columns t.id)
  | index (t : Table) (name : String) (c : Catalog) :
      Gives (.getIndex t name) c
        ((c.indexes t.id).find? fun entry => Text.sameIgnoringCase entry.value.name name)
  | indexes (t : Table) (c : Catalog) : Gives (.allIndexes t) c (c.indexes t.id)

/-- An operation that reads from what is kept of a table looks it up. -/
theorem exists_lookUp {call : Call} (h : call.part = k.part t) :
    ∃ give : Catalog → call.Result, call.task = k.lookUp t give ∧ ∀ c, Gives call c (give c) := by
  cases k with
  | columns =>
    cases call with
    | getColumn t' name =>
      obtain rfl : t' = t := Part.columns.inj h
      exact ⟨_, lookUp_bind_pure (k := columns) _ _, .column t' name⟩
    | allColumns t' =>
      obtain rfl : t' = t := Part.columns.inj h
      exact ⟨_, rfl, .columns t'⟩
    | _ => cases h
  | indexes =>
    cases call with
    | getIndex t' name =>
      obtain rfl : t' = t := Part.indexes.inj h
      exact ⟨_, lookUp_bind_pure (k := indexes) _ _, .index t' name⟩
    | allIndexes t' =>
      obtain rfl : t' = t := Part.indexes.inj h
      exact ⟨_, rfl, .indexes t'⟩
    | _ => cases h

end Cache

/-! ### What every step keeps -/

variable {k : Cache} {t : Table} {c : Catalog} {rows : List TextRow} {steps : List Step}

/-- What is kept of tables has numbers that are not free, and its columns were read. -/
structure Kept (c : Catalog) : Prop where
  below : ∀ (k : Cache) (t : Table), ∀ entry ∈ k.entries t c, entry.id < c.next
  declared : ∀ t : Table, ∀ entry ∈ c.columns t.id, entry.value.Declared

/-- A list of objects leaves alone what is kept of tables. -/
theorem Kept.listing (h : Kept c) (l : Listing) (rows : List TextRow) : Kept (l.learn rows c) := by
  have hentries (k : Cache) (t : Table) : k.entries t (l.learn rows c) = k.entries t c := by
    cases l <;> cases k <;> rfl
  refine ⟨fun k t entry hentry => ?_, fun t entry hentry => ?_⟩
  · rw [hentries] at hentry
    exact Nat.lt_of_lt_of_le (h.below k t entry hentry) (next_le_learn l rows c)
  · have hold : entry ∈ Cache.columns.entries t c := hentries .columns t ▸ hentry
    exact h.declared t entry hold

/-- Columns that were read are like their declarations. -/
theorem declared_of_read {columns : List Column} (hread : Cache.columns.read rows = .ok columns) :
    ∀ column ∈ columns, column.Declared := by
  intro column hcolumn
  obtain ⟨row, -, hrow⟩ := exists_mem_of_mapM hread hcolumn
  exact Column.declared_of_ofRow? hrow

theorem Kept.learn (h : Kept c) {values : List k.Value} (hread : k.read rows = .ok values) :
    Kept (k.learn t values c) := by
  have hnext : c.next ≤ (k.learn t values c).next := by
    rw [Cache.next_learn]
    exact Entry.le_merge _ _ _
  refine ⟨fun k' t' entry hentry => ?_, fun t' entry hentry => ?_⟩
  · obtain ⟨rfl, hid⟩ | hother := Cache.entries_learn_cases k' k t' t values c
    · -- an entry is an old one, or has a number that was free before
      rw [Cache.entries_congr hid, Cache.entries_learn] at hentry
      obtain hold | ⟨-, hlt⟩ := Entry.mem_merge hentry
      · exact Nat.lt_of_lt_of_le (h.below k' t entry hold) hnext
      · rwa [Cache.next_learn]
    · rw [hother] at hentry
      exact Nat.lt_of_lt_of_le (h.below k' t' entry hentry) hnext
  · obtain ⟨rfl, hid⟩ | hother := Cache.entries_learn_cases .columns k t' t values c
    · have hmem : entry ∈ Cache.columns.entries t (Cache.columns.learn t values c) :=
        Cache.entries_congr hid ▸ hentry
      exact declared_of_read hread _ (Cache.value_mem_of_mem_learn hmem)
    · have hold : entry ∈ Cache.columns.entries t' c := hother ▸ hentry
      exact h.declared t' entry hold

theorem Kept.moves {part : Part} {turn : Turn} (h : Kept turn.before) (moves : part.Moves turn) :
    Kept turn.after := by
  cases moves with
  | @learned c c' rows read =>
    cases part with
    | listing l =>
      obtain rfl := Except.ok.inj read
      exact h.listing l rows
    | columns t =>
      obtain ⟨columns, hread, rfl⟩ := map_eq_ok.mp read
      exact Kept.learn (k := .columns) h hread
    | indexes t =>
      obtain ⟨indexes, hread, rfl⟩ := map_eq_ok.mp read
      exact Kept.learn (k := .indexes) h hread
  | _ => exact h

theorem Steps.kept (h : Steps steps c) : Kept c := by
  induction h with
  | nil =>
    refine ⟨fun k t entry hentry => ?_, fun t entry hentry => absurd hentry List.not_mem_nil⟩
    cases k <;> exact absurd hentry List.not_mem_nil
  | concat step earlier known moves ih => exact ih.moves moves

/-! ### Look-ups in a run -/

/-- What becomes of what is kept of a table when its list came in whole. -/
structure Relearned (k : Cache) (t : Table) (values : List k.Value) (before after : Catalog) :
    Prop where
  /-- It is what the rows tell, in their order. -/
  values : (k.entries t after).map Entry.value = values
  /-- A value that was kept is in the entry that it was in, and any other one is in a new entry. -/
  entries : ∀ entry ∈ k.entries t after,
    (k.entries t before).find? (fun old => old.value == entry.value) = some entry ∨
      ∀ old ∈ k.entries t before, old.value ≠ entry.value ∧ old.id ≠ entry.id
  /-- All else stays. -/
  databases : after.databases = before.databases
  tables : after.tables = before.tables
  others : ∀ (k' : Cache) (t' : Table), (k' = k → t'.id ≠ t.id) →
    k'.entries t' after = k'.entries t' before

/-- A look-up in a catalog, from the answer of the server. -/
structure AllOrNothing (k : Cache) (t : Table) (before : Catalog) (p : Performed)
    (answer : Option (CatalogRequest.rows (k.part t).statement).Answer) : Prop where
  /-- The server is asked once. -/
  asked : p.turns = [⟨before, ⟨.rows (k.part t).statement, answer⟩, p.outcome.left⟩]
  /-- Without an answer, or with a failure, nothing is learned. -/
  waits : answer = none → p.outcome = .waiting before
  fails : ∀ e, answer = some (.error e) → p.outcome = .finished before (.error (.connection e))
  /-- With a row that is refused, nothing is learned; the first one says why. -/
  refuses : ∀ (rows : List TextRow) (e : CatalogError), answer = some (.ok rows) →
    k.FirstRefused rows e → p.outcome = .finished before (.error e)
  /-- If no row is refused, all is learned. -/
  learns : ∀ rows : List TextRow, answer = some (.ok rows) →
    (∀ row ∈ rows, ∀ e, ¬ k.Refuses row e) → ∃ values after r, k.read rows = .ok values ∧
      p.outcome = .finished after (.ok r) ∧ Cache.Gives p.call after r ∧
      Relearned k t values before after ∧
      -- the same rows once more, each of its own name, change nothing
      ((values.map k.valueName).Nodup → ∀ (q : Performed) (s s' : Catalog),
        q.call.part = k.part t → Watched (q.call.task.run after) q.turns q.outcome →
        q.turns = [⟨s, ⟨.rows (k.part t).statement, some (.ok rows)⟩, s'⟩] →
        q.outcome.left = after)

theorem Kept.relearned (h : Kept c) (k : Cache) (t : Table) (values : List k.Value) :
    Relearned k t values c (k.learn t values c) := by
  refine ⟨?_, fun entry hentry => ?_, ?_, ?_, fun k' t' hne => ?_⟩
  · rw [Cache.entries_learn]
    exact Entry.values_merge _ _ _
  · rw [Cache.entries_learn] at hentry
    obtain hold | ⟨hnew, hfree⟩ := Entry.find?_of_mem_merge hentry
    · exact .inl hold
    · -- its number was free, so no old entry has it
      refine .inr fun old hold => ⟨hnew old hold, ?_⟩
      have hbelow := h.below k t old hold
      omega
  · cases k <;> rfl
  · cases k <;> rfl
  · exact Cache.entries_learn_of_ne hne values c

/-- The same rows once more, each of its own name, change nothing. -/
theorem left_eq_of_again {values : List k.Value} (hread : k.read rows = .ok values)
    (hnames : (values.map k.valueName).Nodup) {q : Performed} (hq : q.call.part = k.part t)
    (w : Watched (q.call.task.run (k.learn t values c)) q.turns q.outcome) {s s' : Catalog}
    (hturns : q.turns = [⟨s, ⟨.rows (k.part t).statement, some (.ok rows)⟩, s'⟩]) :
    q.outcome.left = k.learn t values c := by
  obtain ⟨give, htask, -⟩ := Cache.exists_lookUp hq
  rw [htask] at w
  have hgoes := Cache.goes w
  rw [hturns] at hgoes
  generalize q.outcome = o at hgoes ⊢
  cases hgoes with
  | refuses rows e read => rfl
  | learns rows values' read =>
    -- names tell values apart
    obtain rfl : values' = values := Except.ok.inj (read.symm.trans hread)
    exact Cache.learn_learn (List.Nodup.of_map k.valueName hnames) c

theorem Kept.allOrNothing (h : Kept c) {p : Performed} (hp : p.call.part = k.part t)
    (w : Watched (p.call.task.run c) p.turns p.outcome) : ∃ answer, AllOrNothing k t c p answer := by
  obtain ⟨call, turns, o⟩ := p
  change call.part = k.part t at hp
  change Watched (call.task.run c) turns o at w
  obtain ⟨give, htask, hgive⟩ := Cache.exists_lookUp hp
  rw [htask] at w
  have hgoes := Cache.goes w
  cases hgoes with
  | waits => exact ⟨none, rfl, fun _ => rfl, nofun, nofun, nofun⟩
  | fails e =>
    refine ⟨some (.error e), rfl, nofun, fun e' he => ?_, nofun, nofun⟩
    cases he
    rfl
  | refuses rows e read =>
    have hrefused := Cache.read_eq_error_iff.mp read
    refine ⟨some (.ok rows), rfl, nofun, nofun, fun rows' e' hrows hrefused' => ?_,
      fun rows' hrows hall => ?_⟩
    · cases hrows
      rw [Cache.read_eq_error_iff.mpr hrefused'] at read
      rw [Except.error.inj read]
    · cases hrows
      obtain ⟨front, row, back, rfl, -, hrow⟩ := hrefused
      exact absurd hrow (hall row (by simp) e)
  | learns rows values read =>
    refine ⟨some (.ok rows), rfl, nofun, nofun, fun rows' e' hrows hrefused => ?_,
      fun rows' hrows _ => ?_⟩
    · cases hrows
      rw [Cache.read_eq_error_iff.mpr hrefused] at read
      cases read
    · cases hrows
      exact ⟨values, _, _, read, rfl, hgive _, h.relearned k t values,
        fun hnames q s s' hq w hturns => left_eq_of_again read hnames hq w hturns⟩

variable {history : List Performed}

/-- An operation in the middle of a run follows what was before it. -/
theorem Run.split {earlier later : List Performed} {p : Performed}
    (run : Run (earlier ++ p :: later) c) :
    ∃ before, Run earlier before ∧ Watched (p.call.task.run before) p.turns p.outcome := by
  -- runs grow at the end, so what stands behind the operation is taken away from there
  induction later using List.reverseRecOn generalizing c with
  | nil =>
    generalize hall : earlier ++ [p] = all at run
    cases run with
    | nil => simp at hall
    | concat earlier' p' known watched =>
      obtain ⟨rfl, hp⟩ := List.append_inj' hall rfl
      obtain rfl := List.singleton_inj.mp hp
      exact ⟨_, earlier', watched⟩
  | append_singleton later q ih =>
    generalize hall : earlier ++ p :: (later ++ [q]) = all at run
    cases run with
    | nil => simp at hall
    | concat earlier' q' known watched =>
      rw [← List.cons_append, ← List.append_assoc] at hall
      obtain ⟨rfl, -⟩ := List.append_inj' hall rfl
      exact ih earlier'

/-- In every run, whatever the server answers: a look-up of what is kept of a table learns the whole
list or nothing, and every column that was ever kept is like its declaration. -/
theorem Run.caches_exact (run : Run history c) :
    (∀ (earlier later : List Performed) (p : Performed) (k : Cache) (t : Table),
      history = earlier ++ p :: later → p.call.part = k.part t →
      ∃ before answer, Run earlier before ∧ AllOrNothing k t before p answer) ∧
    ∀ step ∈ stepsOf history, ∀ t : Table, ∀ entry ∈ step.turn.after.columns t.id,
      entry.value.Declared := by
  refine ⟨fun earlier later p k t hsplit hp => ?_, fun step hstep t entry hentry => ?_⟩
  · -- what was kept before the operation has numbers that are not free, by the run up to there
    subst hsplit
    obtain ⟨before, hbefore, watched⟩ := run.split
    obtain ⟨answer, hanswer⟩ := hbefore.steps.kept.allOrNothing hp watched
    exact ⟨before, answer, hbefore, hanswer⟩
  · obtain ⟨earlier, later, hsplit⟩ := List.append_of_mem hstep
    obtain ⟨hbefore, -, hmoves⟩ := (hsplit ▸ run.steps).split
    exact (hbefore.kept.moves hmoves).declared t entry hentry

/-- A server that lists given rows, whatever it is asked for. -/
def answering (rows : List TextRow) : (q : CatalogRequest) → Unit → Unit × Option q.Answer
  | .rows _, _ => ((), some (.ok rows))
  | .execute _, _ => ((), some (.ok (0 : UInt64)))

/-- A row of a list of columns. -/
def columnRow (name declaration : String) : TextRow :=
  ⟨["Field", "Type", "Null"], [name, declaration, "NO"]⟩

/-- A column comes with a type that cannot be read, and what was kept of the table stays. -/
theorem caches_exact_refused :
    let app : Database := ⟨0, "app"⟩
    let users : Table := ⟨1, "app", "users"⟩
    let opened := Performed.against (naming ["app"]) .allDatabases {} ()
    let listed := Performed.against (naming ["users"]) (.allTables app) opened.outcome.left ()
    let first := Performed.against (answering [columnRow "ID" "int"]) (.allColumns users)
      listed.outcome.left ()
    let second := Performed.against (answering [columnRow "ID" "bigint", columnRow "AREA" "square"])
      (.getColumn users "id") first.outcome.left ()
    (∃ before answer, Run [opened, listed, first] before ∧
      AllOrNothing .columns users before second answer) ∧
    (second.outcome.left.columns 1).map (fun entry => (entry.id, entry.value.declaration)) =
      [(2, "int")] := by
  intro app users opened listed first second
  have hopened : app ∈ opened.outcome.left.databases := by decide +kernel
  have hlisted : users ∈ listed.outcome.left.tables 0 := by decide +kernel
  have happ : Seen (stepsOf [opened]) (.database app) := ⟨_, List.mem_singleton_self _, hopened⟩
  have husers : Seen (stepsOf [opened, listed]) (.table users) :=
    ⟨_, List.mem_cons_of_mem _ (List.mem_singleton_self _), 0, hlisted⟩
  have run : Run [opened, listed, first, second] second.outcome.left :=
    (((Run.nil.against _ .allDatabases () (by rintro _ ⟨⟩)).against _ (.allTables app) ()
      (by rintro _ ⟨⟩; exact happ)).against _ (.allColumns users) ()
      (by rintro _ ⟨⟩; exact husers)).against _ (.getColumn users "id") ()
      (by rintro _ ⟨⟩; exact husers.append (first.steps ++ []))
  exact ⟨run.caches_exact.1 [opened, listed, first] [] second .columns users rfl rfl,
    by decide +kernel⟩

end Catalog

end TypedSql
