/-
What a list does to the catalog, in every run.

After a list came in, the objects of that list are those that it names. An object that it names
again is the same object, with all that is known below it; one that it names no more is gone; one
that it names anew has a fresh number, and nothing is known below it. Nothing else changes. A list
that fails changes nothing, and the failure is what the operation gives.

* `Numbered.resynced` — one list;
* `Steps.carried` — from one list to the next one of the same objects;
* `Run.resync_exact` — all of it, in a run.
-/
import TypedSql.Proofs.CatalogRun

namespace TypedSql

theorem Entry.find?_eq_some {α : Type} [DecidableEq α] {entries : List (Entry α)} {entry : Entry α}
    (hdistinct : (entries.map Entry.value).Nodup) (h : entry ∈ entries) :
    entries.find? (fun e => e.value == entry.value) = some entry := by
  cases hfind : entries.find? (fun e => e.value == entry.value) with
  | none => exact absurd (List.find?_eq_none.mp hfind entry h) (by simp)
  | some first =>
    have hvalue : first.value = entry.value := by simpa using List.find?_some hfind
    rw [List.inj_on_of_nodup_map hdistinct (List.mem_of_find?_eq_some hfind) h hvalue]

open Dialogue (Path Watched)

namespace Catalog

variable {c c' : Catalog} {x y : Object} {l : Listing} {rows : List TextRow} {part : Part}
  {turn : Turn} {steps : List Step} {step : Step}

/-! ### What is known below an object -/

/-- The columns and indexes of a table are known alike. -/
def SameTable (c c' : Catalog) (t : Table) : Prop :=
  c'.columns t.id = c.columns t.id ∧ c'.indexes t.id = c.indexes t.id

/-- All that is known below an object is known alike. -/
def SameBelow (c c' : Catalog) : Object → Prop
  | .database d => c'.tables d.id = c.tables d.id ∧ ∀ t ∈ c.tables d.id, SameTable c c' t
  | .table t => SameTable c c' t

/-- A part is known below an object. -/
def Part.Below (part : Part) (c : Catalog) : Object → Prop
  | .database d => part.object? = some (.database d) ∨
      ∃ t ∈ c.tables d.id, part.object? = some (.table t)
  | .table t => part.object? = some (.table t)

/-- What an operation reads from lies elsewhere than an object that was listed. -/
theorem Numbered.ne_number (h : Numbered steps c) (known : ∀ y ∈ part.object?, Seen steps y)
    (hx : Seen steps x) (hne : part.object? ≠ some x) : ∀ y ∈ part.object?, x.number ≠ y.number := by
  intro y hy heq
  obtain rfl := h.unique x y hx (known y hy) heq
  exact hne hy

/-- A step changes what is known of its own part only. -/
theorem Numbered.sameBelow (h : Numbered steps turn.before)
    (known : ∀ y ∈ part.object?, Seen steps y) (moves : part.Moves turn) (hx : Seen steps x)
    (hout : ¬ part.Below turn.before x) : SameBelow turn.before turn.after x := by
  have hsame (c : Catalog) : SameBelow c c x := by
    cases x with
    | database d => exact ⟨rfl, fun t _ => ⟨rfl, rfl⟩⟩
    | table t => exact ⟨rfl, rfl⟩
  -- a table that is seen, and is not the one that the operation reads from
  have hother {t : Table} (ht : Seen steps (.table t)) (hne : part.object? ≠ some (.table t)) :
      SameTable turn.before turn.after t := by
    have hnumber := h.ne_number known ht hne
    cases moves with
    | learned read =>
      cases part with
      | listing l =>
        obtain rfl := Except.ok.inj read
        cases l <;> exact ⟨rfl, rfl⟩
      | columns t' =>
        obtain ⟨columns, -, rfl⟩ := map_eq_ok.mp read
        exact ⟨if_neg (hnumber _ rfl), rfl⟩
      | indexes t' =>
        obtain ⟨indexes, -, rfl⟩ := map_eq_ok.mp read
        exact ⟨rfl, if_neg (hnumber _ rfl)⟩
    | _ => exact ⟨rfl, rfl⟩
  cases x with
  | table t => exact hother hx hout
  | database d =>
    rw [Part.Below, not_or] at hout
    refine ⟨?_, fun t ht => hother (h.held _ ⟨d.id, ht⟩) fun heq => hout.2 ⟨t, ht, heq⟩⟩
    have hnumber := h.ne_number known hx hout.1
    cases moves with
    | learned read =>
      cases part with
      | listing l =>
        obtain rfl := Except.ok.inj read
        cases l with
        | databases => rfl
        | tables owner => exact tables_learnTables_of_ne (hnumber _ rfl) _ _
      | columns t' =>
        obtain ⟨columns, -, rfl⟩ := map_eq_ok.mp read
        rfl
      | indexes t' =>
        obtain ⟨indexes, -, rfl⟩ := map_eq_ok.mp read
        rfl
    | _ => rfl

/-! ### One list -/

/-- A list of the server names an object: it has a row that begins with that name, and the text is a
name here. -/
def Listing.Names (l : Listing) (rows : List TextRow) (name : String) : Prop :=
  l.kind.admits name = true ∧ ∃ row ∈ rows, row.at? 0 = some name

theorem mem_listed {name : String} : name ∈ listed l.kind rows ↔ l.Names rows name := by
  simp [listed, Text.mem_ordered, Listing.Names, and_comm]

/-- A step in which a list came in. -/
def Step.Syncs (step : Step) (l : Listing) (rows : List TextRow) : Prop :=
  step.part = .listing l ∧ step.turn.asked = ⟨.rows l.statement, some (.ok rows)⟩

/-- What a list does to the catalog, where some objects were listed before. -/
structure Resynced (seen : Object → Prop) (l : Listing) (rows : List TextRow)
    (before after : Catalog) : Prop where
  /-- The objects are those that the list names, each once. -/
  names : ∀ name, (∃ x ∈ l.objects after, x.name = name) ↔ l.Names rows name
  once : ((l.objects after).map Object.name).Nodup
  /-- What is named again is the same object, with all that is known below it. -/
  kept : ∀ x ∈ l.objects before, l.Names rows x.name →
    x ∈ l.objects after ∧ SameBelow before after x
  /-- What is named anew is no object that was ever listed, and nothing is known below it. -/
  fresh : ∀ x ∈ l.objects after, x ∉ l.objects before →
    (∀ y ∈ l.objects before, y.name ≠ x.name) ∧ (∀ y, seen y → y.number ≠ x.number) ∧
      after.Bare x.number
  /-- All else stays. -/
  below : ∀ x, seen x → (Part.listing l).object? ≠ some x → SameBelow before after x

theorem Part.Moves.after_eq (moves : (Part.listing l).Moves turn)
    (hasked : turn.asked = ⟨.rows l.statement, some (.ok rows)⟩) :
    turn.after = l.learn rows turn.before := by
  cases moves with
  | learned read =>
    cases hasked
    exact (Except.ok.inj read).symm
  | unreadable read => cases read
  | executed c text n => cases hasked
  | failed c q e => cases hasked
  | unanswered c q => cases hasked

/-- An object that is named again stays. -/
theorem Numbered.mem_learn (h : Numbered steps c)
    (known : ∀ y ∈ (Part.listing l).object?, Seen steps y) (hx : x ∈ l.objects c)
    (hnamed : l.Names rows x.name) : x ∈ l.objects (l.learn rows c) := by
  have hname := mem_listed.mpr hnamed
  have hdistinct := h.distinct l
  cases l with
  | databases =>
    obtain ⟨d, hd, rfl⟩ := List.mem_map.mp hx
    rw [Listing.objects, List.map_map] at hdistinct
    exact List.mem_map_of_mem
      (Entry.mem_merge_of_mem (Entry.find?_eq_some hdistinct hd) c.next hname)
  | tables owner =>
    obtain ⟨t, ht, rfl⟩ := List.mem_map.mp hx
    have hvalue : t.value = ⟨owner.value, t.value.name⟩ := by
      rw [← h.owned owner (known _ rfl) t ht]
    have hdistinct' : ((c.tables owner.id).map Entry.value).Nodup := by
      refine List.Nodup.of_map TableName.name ?_
      rw [Listing.objects, List.map_map] at hdistinct
      rwa [List.map_map]
    refine List.mem_map_of_mem (f := Object.table) ?_
    rw [Listing.learn, tables_learnTables]
    refine Entry.mem_merge_of_mem (Entry.find?_eq_some hdistinct' ht) c.next ?_
    exact hvalue ▸ List.mem_map_of_mem hname

/-- No object is in its own list. -/
theorem Listing.object?_ne_of_mem (hx : x ∈ l.objects c) : (Part.listing l).object? ≠ some x := by
  cases l with
  | databases => exact fun h => nomatch h
  | tables owner =>
    obtain ⟨t, -, rfl⟩ := List.mem_map.mp hx
    exact fun h => nomatch h

theorem Numbered.resynced (h : Numbered steps step.turn.before)
    (known : ∀ y ∈ step.part.object?, Seen steps y) (moves : step.part.Moves step.turn)
    (hsync : step.Syncs l rows) :
    Resynced (Seen steps) l rows step.turn.before step.turn.after := by
  obtain ⟨part, turn⟩ := step
  obtain rfl : part = .listing l := hsync.1
  have hafter : turn.after = l.learn rows turn.before := moves.after_eq hsync.2
  have hnames : (l.objects turn.after).map Object.name = listed l.kind rows :=
    hafter ▸ names_learn l rows turn.before
  have hmem (name : String) : (∃ x ∈ l.objects turn.after, x.name = name) ↔ l.Names rows name := by
    rw [← mem_listed, ← hnames, List.mem_map]
  have honce : ((l.objects turn.after).map Object.name).Nodup := hnames ▸ nodup_listed _ _
  have hkept (x : Object) (hx : x ∈ l.objects turn.before) (hnamed : l.Names rows x.name) :
      x ∈ l.objects turn.after := hafter ▸ h.mem_learn known hx hnamed
  have hbelow (x : Object) (hx : Seen steps x) (hne : (Part.listing l).object? ≠ some x) :
      SameBelow turn.before turn.after x := by
    refine h.sameBelow known moves hx ?_
    cases x with
    | database d =>
      rintro (heq | ⟨t, -, heq⟩)
      · exact hne heq
      · cases l <;> cases heq
    | table t => exact hne
  refine ⟨hmem, honce, fun x hx hnamed => ⟨hkept x hx hnamed, ?_⟩, fun x hx hnew => ?_, hbelow⟩
  · exact hbelow x (h.mem_objects hx) (Listing.object?_ne_of_mem hx)
  · obtain hold | ⟨hfree, -⟩ := mem_objects_learn (hafter ▸ hx)
    · exact absurd hold hnew
    · have hnumber (y : Object) (hy : Seen steps y) : y.number ≠ x.number :=
        (Nat.lt_of_lt_of_le (h.below y hy) hfree).ne
      refine ⟨fun y hy heq => hnew ?_, hnumber, ?_⟩
      · -- an old object of that name would have stayed
        have hstays := hkept y hy (heq ▸ (hmem _).mp ⟨x, hx, rfl⟩)
        exact List.inj_on_of_nodup_map honce hstays hx heq ▸ hy
      · exact hafter ▸ (h.bare_of_le hfree).learn (fun y hy => hnumber y (known y hy)) rows

/-! ### From one list to the next -/

theorem Steps.last (h : Steps (steps ++ [step]) c) : c = step.turn.after ∧
    Steps steps step.turn.before ∧ (∀ y ∈ step.part.object?, Seen steps y) ∧
      step.part.Moves step.turn := by
  generalize hall : steps ++ [step] = all at h
  cases h with
  | nil => simp at hall
  | concat step' earlier known moves =>
    obtain ⟨rfl, hstep⟩ := List.append_inj' hall rfl
    obtain rfl := List.singleton_inj.mp hstep
    exact ⟨rfl, earlier, known, moves⟩

/-- A step in the middle of a chain follows what was before it. -/
theorem Steps.split {earlier later : List Step} (h : Steps (earlier ++ step :: later) c) :
    Steps earlier step.turn.before ∧ (∀ y ∈ step.part.object?, Seen earlier y) ∧
      step.part.Moves step.turn := by
  induction later using List.reverseRecOn generalizing c with
  | nil => exact h.last.2
  | append_singleton later s ih =>
    rw [← List.cons_append, ← List.append_assoc] at h
    exact ih h.last.2.1

/-- The objects of a list stay in a step in which that list does not come in. -/
theorem Numbered.objects_eq (h : Numbered steps turn.before)
    (known : ∀ y ∈ part.object?, Seen steps y) (moves : part.Moves turn)
    (hl : ∀ y ∈ (Part.listing l).object?, Seen steps y)
    (hquiet : ∀ rows, ¬ Step.Syncs ⟨part, turn⟩ l rows) :
    l.objects turn.after = l.objects turn.before := by
  cases moves with
  | @learned c c' rows read =>
    cases part with
    | listing l' =>
      obtain rfl := Except.ok.inj read
      obtain hsame | ⟨hnumber, -⟩ := objects_learn l' l rows c
      · exact hsame
      · refine absurd ?_ (hquiet rows)
        have heq : l' = l := by
          cases l with
          | databases =>
            cases l' with
            | databases => rfl
            | tables d' => cases hnumber
          | tables d =>
            cases l' with
            | databases => cases hnumber
            | tables d' =>
              have := h.unique _ _ (known _ rfl) (hl _ rfl) (Option.some.inj hnumber).symm
              rw [Object.database.inj this]
        subst heq
        exact ⟨rfl, rfl⟩
    | columns t =>
      obtain ⟨columns, -, rfl⟩ := map_eq_ok.mp read
      cases l <;> rfl
    | indexes t =>
      obtain ⟨indexes, -, rfl⟩ := map_eq_ok.mp read
      cases l <;> rfl
  | _ => rfl

/-- The objects of a list stay until that list comes in again. -/
theorem Steps.objects_eq {earlier between : List Step} {first : Step}
    (h : Steps (earlier ++ first :: between) c) (hfirst : first.Syncs l rows)
    (hquiet : ∀ step ∈ between, ∀ rows, ¬ step.Syncs l rows) :
    l.objects c = l.objects first.turn.after := by
  induction between using List.reverseRecOn generalizing c with
  | nil => rw [h.last.1]
  | append_singleton between step ih =>
    have hl := h.split.2.1
    rw [← List.cons_append, ← List.append_assoc] at h
    obtain ⟨rfl, hbefore, known, moves⟩ := h.last
    rw [hbefore.numbered.objects_eq known moves (fun y hy => ?_) (hquiet step (by simp))]
    · exact ih hbefore fun s hs => hquiet s (List.mem_append_left _ hs)
    · exact (hl y (hfirst.1 ▸ hy)).append _

/-- What becomes of the objects of a list from one time that it comes in to the next. -/
structure Carried (seen : Object → Prop) (l : Listing) (rows rows' : List TextRow)
    (first second : Turn) : Prop where
  /-- Nothing becomes of them in between. -/
  between : l.objects second.before = l.objects first.after
  /-- What is named both times is the same object, with all that is known below it. -/
  kept : ∀ name, l.Names rows name → l.Names rows' name →
    ∃ x, x.name = name ∧ x ∈ l.objects first.after ∧ x ∈ l.objects second.after ∧
      SameBelow second.before second.after x
  /-- What is named the first time only is gone. -/
  gone : ∀ name, l.Names rows name → ¬ l.Names rows' name →
    ∀ x ∈ l.objects second.after, x.name ≠ name
  /-- What is named the second time only is a new object, and nothing is known below it. -/
  fresh : ∀ name, ¬ l.Names rows name → l.Names rows' name →
    ∃ x ∈ l.objects second.after, x.name = name ∧ (∀ y, seen y → y.number ≠ x.number) ∧
      second.after.Bare x.number

theorem Steps.carried {earlier between later : List Step} {first second : Step}
    {rows' : List TextRow} (h : Steps (earlier ++ first :: (between ++ second :: later)) c)
    (hfirst : first.Syncs l rows) (hsecond : second.Syncs l rows')
    (hquiet : ∀ step ∈ between, ∀ rows, ¬ step.Syncs l rows) :
    Carried (Seen (earlier ++ first :: between)) l rows rows' first.turn second.turn := by
  obtain ⟨hstart, hknown, hmoves⟩ := h.split
  rw [← List.cons_append, ← List.append_assoc] at h
  obtain ⟨hbefore, hknown', hmoves'⟩ := h.split
  have hbetween := hbefore.objects_eq hfirst hquiet
  have synced := hstart.numbered.resynced hknown hmoves hfirst
  have synced' := hbefore.numbered.resynced hknown' hmoves' hsecond
  refine ⟨hbetween, fun name hname hname' => ?_, fun name _ hname' x hx hx' => ?_,
    fun name hname hname' => ?_⟩
  · obtain ⟨x, hx, rfl⟩ := (synced.names name).mpr hname
    have hxbefore : x ∈ l.objects second.turn.before := hbetween ▸ hx
    exact ⟨x, rfl, hx, synced'.kept x hxbefore hname'⟩
  · exact hname' ((synced'.names name).mp ⟨x, hx, hx'⟩)
  · obtain ⟨x, hx, rfl⟩ := (synced'.names name).mpr hname'
    have hnew : x ∉ l.objects second.turn.before := fun hold =>
      hname ((synced.names x.name).mp ⟨x, hbetween ▸ hold, rfl⟩)
    obtain ⟨-, hnumber, hbare⟩ := synced'.fresh x hx hnew
    exact ⟨x, hx, rfl, hnumber, hbare⟩

/-! ### Runs -/

variable {history : List Performed}

theorem Run.watched (run : Run history c) {p : Performed} (hp : p ∈ history) :
    ∃ c, Watched (p.call.task.run c) p.turns p.outcome := by
  induction run with
  | nil => simp at hp
  | concat earlier last known watched ih =>
    obtain hp | hp := List.mem_append.mp hp
    · exact ih hp
    · obtain rfl := List.mem_singleton.mp hp
      exact ⟨_, watched⟩

/-- In every run, whatever the server answers: a list that comes in is learned as it is; from one
time that it comes in to the next, objects stay, go and come as it names them; a turn changes what is
known of its own part only; and a failure of the server is what the operation gives, and the catalog
is left as it was. -/
theorem Run.resync_exact (run : Run history c) :
    (∀ (earlier later : List Step) (step : Step) (l : Listing) (rows : List TextRow),
      stepsOf history = earlier ++ step :: later → step.Syncs l rows →
      Resynced (Seen earlier) l rows step.turn.before step.turn.after) ∧
    (∀ (earlier between later : List Step) (first second : Step) (l : Listing)
      (rows rows' : List TextRow),
      stepsOf history = earlier ++ first :: (between ++ second :: later) →
      first.Syncs l rows → second.Syncs l rows' →
      (∀ step ∈ between, ∀ rows, ¬ step.Syncs l rows) →
      Carried (Seen (earlier ++ first :: between)) l rows rows' first.turn second.turn) ∧
    (∀ (earlier later : List Step) (step : Step) (x : Object),
      stepsOf history = earlier ++ step :: later → Seen earlier x →
      ¬ step.part.Below step.turn.before x → SameBelow step.turn.before step.turn.after x) ∧
    ∀ p ∈ history, ∀ turn ∈ p.turns, ∀ e, turn.asked.answer = some (.error e) →
      p.turns.getLast? = some turn ∧ turn.after = turn.before ∧
        p.outcome = .finished turn.before (.error (.connection e)) := by
  have hsteps := run.steps
  refine ⟨fun earlier later step l rows hsplit hsync => ?_,
    fun earlier between later first second l rows rows' hsplit hfirst hsecond hquiet => ?_,
    fun earlier later step x hsplit hx hout => ?_, fun p hp turn hturn e he => ?_⟩
  · rw [hsplit] at hsteps
    obtain ⟨hbefore, known, moves⟩ := hsteps.split
    exact hbefore.numbered.resynced known moves hsync
  · exact (hsplit ▸ hsteps).carried hfirst hsecond hquiet
  · rw [hsplit] at hsteps
    obtain ⟨hbefore, known, moves⟩ := hsteps.split
    exact hbefore.numbered.sameBelow known moves hx hout
  · obtain ⟨c, watched⟩ := run.watched hp
    exact (p.call.follows c).2.failing watched turn hturn e he

/-- Rows that begin with given names, or with NULL. -/
def nameRows (names : List (Option String)) : List TextRow :=
  names.map fun name => ⟨["Name"], [name]⟩

/-- A server that lists given names, whatever it is asked for. -/
def naming (names : List (Option String)) : (q : CatalogRequest) → Unit → Unit × Option q.Answer
  | .rows _, _ => ((), some (.ok (nameRows names)))
  | .execute _, _ => ((), some (.ok (0 : UInt64)))

/-- The first table of a database goes, the second one stays, and a third one comes. -/
theorem resync_exact_relisted :
    let app : Database := ⟨0, "app"⟩
    let opened := Performed.against (naming ["app", none]) .allDatabases {} ()
    let first := Performed.against (naming ["b", "a", "b"]) (.allTables app) opened.outcome.left ()
    let second := Performed.against (naming ["c", "b c", "b"]) (.allTables app) first.outcome.left ()
    ∃ s s' s'' : Step, stepsOf [opened, first, second] = [s, s', s''] ∧
      Carried (Seen [s, s']) (.tables app) (nameRows ["b", "a", "b"]) (nameRows ["c", "b c", "b"])
        s'.turn s''.turn ∧
      (Listing.tables app).objects s'.turn.after =
        [.table ⟨1, "app", "a"⟩, .table ⟨2, "app", "b"⟩] ∧
      (Listing.tables app).objects s''.turn.after =
        [.table ⟨2, "app", "b"⟩, .table ⟨3, "app", "c"⟩] := by
  intro app opened first second
  have hlisted : app ∈ opened.outcome.left.databases := by decide +kernel
  have hseen : Seen (stepsOf [opened]) (.database app) := ⟨_, List.mem_singleton_self _, hlisted⟩
  have run : Run [opened, first, second] second.outcome.left :=
    ((Run.nil.against _ .allDatabases () (by rintro _ ⟨⟩)).against _ (.allTables app) ()
      (by rintro _ ⟨⟩; exact hseen)).against _ (.allTables app) ()
      (by rintro _ ⟨⟩; exact hseen.append (first.steps ++ []))
  refine ⟨_, _, _, rfl, ?_, by decide +kernel, by decide +kernel⟩
  exact run.resync_exact.2.1 [_] [] [] _ _ _ _ _ rfl ⟨rfl, rfl⟩ ⟨rfl, rfl⟩ (by simp)

end Catalog

end TypedSql
