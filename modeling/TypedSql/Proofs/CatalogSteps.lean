/-
What an operation of the catalog does, question by question.

An operation is watched while it is under way: each question with its answer, and the catalog in
front of the question and behind the answer (`Dialogue.Watched`). Whatever the operation is, the
catalog changes at the answer to a list only, and then into what is learned from that list; a
failure of the server ends the operation and is passed on (`Part.Follows`).

* `watched_watch` — whoever answers, an operation can be watched;
* `Call.follows` — every operation follows the part of the catalog that it reads from;
* `Watched.path`, `Part.Follows.moves`, `Part.Follows.failing` — what is seen of it then.
-/
import TypedSql.Catalog.Basic
import TypedSql.Proofs.Outcome
import TypedSql.Proofs.Trace

namespace TypedSql

namespace Dialogue

variable {Q : Type} {A : Q → Type} {σ α β ε : Type}

/-- The state that an operation is in: at its end, or at a question. -/
def current : Dialogue Q A σ α → σ
  | done s _ => s
  | ask s _ _ => s

/-- A question with its answer, if there was one, and the states in front of the question and behind
the answer. -/
structure Turn (A : Q → Type) (σ : Type) where
  before : σ
  asked : Asked A
  after : σ

/-- What was seen of an operation, turn by turn, and how far it came. -/
inductive Watched : Dialogue Q A σ α → List (Turn A σ) → Outcome σ α → Prop
  | done (s : σ) (a : α) : Watched (.done s a) [] (.finished s a)
  | answered {s : σ} {q : Q} {k : A q → Dialogue Q A σ α} {answer : A q}
      {rest : List (Turn A σ)} {o : Outcome σ α} (behind : Watched (k answer) rest o) :
      Watched (.ask s q k) (⟨s, ⟨q, some answer⟩, (k answer).current⟩ :: rest) o
  | abandoned (s : σ) (q : Q) (k : A q → Dialogue Q A σ α) :
      Watched (.ask s q k) [⟨s, ⟨q, none⟩, s⟩] (.waiting s)

/-- Watches an operation that a partner answers, or leaves without an answer. -/
def watch (answer : (q : Q) → ε → ε × Option (A q)) :
    Dialogue Q A σ α → ε → List (Turn A σ)
  | done _ _, _ => []
  | ask s q k, e =>
    match answer q e with
    | (e, some a) => ⟨s, ⟨q, some a⟩, (k a).current⟩ :: (k a).watch answer e
    | (_, none) => [⟨s, ⟨q, none⟩, s⟩]

/-- Whoever answers, an operation can be watched to where it comes. -/
theorem watched_watch (answer : (q : Q) → ε → ε × Option (A q)) (d : Dialogue Q A σ α) (e : ε) :
    Watched d (d.watch answer e) (d.run answer e).2 := by
  induction d generalizing e with
  | done s a => exact .done s a
  | ask s q k ih =>
    rw [watch, run]
    cases answer q e with
    | mk e' reply =>
      cases reply with
      | none => exact .abandoned s q k
      | some a => exact .answered (ih a e')

/-- A second operation that starts in the state that the first one left. -/
theorem current_bind {f : σ → α → Dialogue Q A σ β} (h : ∀ s a, (f s a).current = s)
    (d : Dialogue Q A σ α) : (d.bind f).current = d.current := by
  cases d with
  | done s a => exact h s a
  | ask s q k => rfl

/-- Turns that follow each other, from one state to another. -/
inductive Path : σ → List (Turn A σ) → σ → Prop
  | nil (s : σ) : Path s [] s
  | cons (t : Turn A σ) {rest : List (Turn A σ)} {s : σ} (behind : Path t.after rest s) :
      Path t.before (t :: rest) s

/-- What is seen of an operation leads from the state it is in to the one it leaves. -/
theorem Watched.path {d : Dialogue Q A σ α} {turns : List (Turn A σ)} {o : Outcome σ α}
    (w : Watched d turns o) : Path d.current turns o.left := by
  induction w with
  | done s a => exact .nil s
  | @answered s q k answer rest o behind ih => exact .cons ⟨s, ⟨q, some answer⟩, _⟩ ih
  | abandoned s q k => exact .cons ⟨s, ⟨q, none⟩, s⟩ (.nil s)

end Dialogue

open Dialogue (Path Watched)

namespace Catalog

/-! ### Parts of the catalog -/

/-- An object of the server that an application holds. -/
inductive Object where
  | database (d : Database)
  | table (t : Table)
  deriving DecidableEq

namespace Object

/-- The number that an object was given when it was first listed. -/
def number : Object → Nat
  | database d => d.id
  | table t => t.id

/-- An object's name in its list. -/
def name : Object → String
  | database d => d.value
  | table t => t.value.name

end Object

/-- A list of objects that the catalog keeps: its databases, or the tables of one. -/
inductive Listing where
  | databases
  | tables (owner : Database)
  deriving DecidableEq

namespace Listing

/-- What the objects of a list are. -/
def kind : Listing → NameKind
  | databases => .database
  | tables _ => .table

/-- The statement that asks the server for a list. -/
def statement : Listing → String
  | databases => showDatabases
  | tables d => showTables d

/-- The objects of a list that are known. -/
def objects : Listing → Catalog → List Object
  | databases, c => c.databases.map .database
  | tables d, c => (c.tables d.id).map .table

/-- The catalog after rows of a list came in. -/
def learn : Listing → List TextRow → Catalog → Catalog
  | databases, rows, c => c.learnDatabases (listed .database rows)
  | tables d, rows, c => c.learnTables d (listed .table rows)

end Listing

/-- What an operation reads from. -/
inductive Part where
  | listing (l : Listing)
  | columns (table : Table)
  | indexes (table : Table)
  deriving DecidableEq

namespace Part

/-- The statement that asks the server for a part. -/
def statement : Part → String
  | listing l => l.statement
  | columns t => showColumns t
  | indexes t => showIndexes t

/-- The catalog after rows of a part came in, if they can be read. -/
def learn? : Part → List TextRow → Catalog → Except CatalogError Catalog
  | listing l, rows, c => .ok (l.learn rows c)
  | columns t, rows, c => (c.learnColumns t ·) <$> rows.mapM (Column.ofRow? Registry.standard)
  | indexes t, rows, c => (c.learnIndexes t ·) <$> Index.ofRows rows

/-- The object that a part belongs to. The list of databases belongs to none. -/
def object? : Part → Option Object
  | listing .databases => none
  | listing (.tables d) => some (.database d)
  | columns t | indexes t => some (.table t)

end Part

/-! ### Operations -/

/-- An operation that an application asks for, on the catalog or on an object of it. -/
inductive Call where
  | getDatabase (name : String)
  | allDatabases
  | createDatabase (name : String)
  | getOrCreateDatabase (name : String)
  | dropDatabase (name : String)
  | getTable (d : Database) (name : String)
  | allTables (d : Database)
  | createTable (d : Database) (m : RowModel)
  | getColumn (t : Table) (name : String)
  | allColumns (t : Table)
  | getIndex (t : Table) (name : String)
  | allIndexes (t : Table)

namespace Call

/-- What an operation gives. -/
def Result : Call → Type
  | getDatabase _ => Option Database
  | allDatabases => List Database
  | createDatabase _ | getOrCreateDatabase _ => Database
  | dropDatabase _ => Unit
  | getTable .. => Option Table
  | allTables _ => List Table
  | createTable .. => Table
  | getColumn .. => Option (Entry Column)
  | allColumns _ => List (Entry Column)
  | getIndex .. => Option (Entry Index)
  | allIndexes _ => List (Entry Index)

/-- The operation itself. -/
def task : (call : Call) → CatalogTask call.Result
  | getDatabase name => Catalog.getDatabase name
  | allDatabases => Catalog.allDatabases
  | createDatabase name => Catalog.createDatabase name
  | getOrCreateDatabase name => Catalog.getOrCreateDatabase name
  | dropDatabase name => Catalog.dropDatabase name
  | getTable d name => Catalog.getTable d name
  | allTables d => Catalog.allTables d
  | createTable d m => Catalog.createTable d m
  | getColumn t name => Catalog.getColumn t name
  | allColumns t => Catalog.allColumns t
  | getIndex t name => Catalog.getIndex t name
  | allIndexes t => Catalog.allIndexes t

/-- What an operation reads from. -/
def part : Call → Part
  | getDatabase _ | allDatabases | createDatabase _ | getOrCreateDatabase _ | dropDatabase _ =>
    .listing .databases
  | getTable d _ | allTables d | createTable d _ => .listing (.tables d)
  | getColumn t _ | allColumns t => .columns t
  | getIndex t _ | allIndexes t => .indexes t

end Call

/-! ### Following a part -/

/-- An operation under way. -/
abbrev Underway (α : Type) :=
  Dialogue CatalogRequest CatalogRequest.Answer Catalog (Except CatalogError α)

/-- A question of an operation, and the catalog around it. -/
abbrev Turn :=
  Dialogue.Turn CatalogRequest.Answer Catalog

/-- How far an operation came. -/
abbrev Reach (α : Type) :=
  Outcome Catalog (Except CatalogError α)

/-- An operation asks for the list of a part and learns it, or has a statement run and learns
nothing; what fails ends it. -/
inductive Part.Follows (part : Part) {α : Type} : Underway α → Prop
  | done (c : Catalog) (result : Except CatalogError α) : Follows part (.done c result)
  | listing {c : Catalog} {k : CatalogRequest.Answer (.rows part.statement) → Underway α}
      (failing : ∀ e, k (.error e) = .done c (.error (.connection e)))
      (learning : ∀ rows after, part.learn? rows c = .ok after → (k (.ok rows)).current = after)
      (refusing : ∀ rows e, part.learn? rows c = .error e → k (.ok rows) = .done c (.error e))
      (behind : ∀ rows, Follows part (k (.ok rows))) : Follows part (.ask c (.rows part.statement) k)
  | executing {c : Catalog} {text : String}
      {k : CatalogRequest.Answer (.execute text) → Underway α}
      (failing : ∀ e, k (.error e) = .done c (.error (.connection e)))
      (passing : ∀ n, (k (.ok n)).current = c)
      (behind : ∀ n, Follows part (k (.ok n))) : Follows part (.ask c (.execute text) k)

/-- An operation follows a part, and it begins with a question or ends as it began. -/
def Part.FollowedBy (part : Part) {α : Type} (task : CatalogTask α) : Prop :=
  ∀ c, (task.run c).current = c ∧ part.Follows (task.run c)

namespace Part.FollowedBy

variable {part : Part} {α β : Type}

theorem pure (a : α) : part.FollowedBy (Pure.pure a : CatalogTask α) :=
  fun c => ⟨rfl, .done c _⟩

theorem throw (e : CatalogError) : part.FollowedBy (MonadExcept.throw e : CatalogTask α) :=
  fun c => ⟨rfl, .done c _⟩

/-- What stands behind a failure is not reached. -/
theorem throw_bind (e : CatalogError) (f : α → CatalogTask β) :
    part.FollowedBy (MonadExcept.throw e >>= f) :=
  fun c => ⟨rfl, .done c _⟩

theorem get : part.FollowedBy (MonadState.get : CatalogTask Catalog) :=
  fun c => ⟨rfl, .done c _⟩

/-- Two operations in a row. A failure of the first one is the end of both. -/
theorem bind {task : CatalogTask α} {f : α → CatalogTask β} (first : part.FollowedBy task)
    (second : ∀ a, part.FollowedBy (f a)) : part.FollowedBy (task >>= f) := by
  have quiet (c : Catalog) (result : Except CatalogError α) :
      (ExceptT.bindCont f result c).current = c := by
    cases result with
    | ok a => exact (second a c).1
    | error e => rfl
  -- induction on what is left of the first operation
  have follows {d : Underway α} (h : part.Follows d) :
      part.Follows (d.bind fun c result => ExceptT.bindCont f result c) := by
    induction h with
    | done c result =>
      cases result with
      | ok a => exact (second a c).2
      | error e => exact .done c _
    | listing failing learning refusing _ ih =>
      refine .listing (fun e => ?_) (fun rows after hlearn => ?_) (fun rows e hlearn => ?_) ih
      · rw [failing e]; rfl
      · exact (Dialogue.current_bind quiet _).trans (learning rows after hlearn)
      · rw [refusing rows e hlearn]; rfl
    | executing failing passing _ ih =>
      refine .executing (fun e => ?_) (fun n => ?_) ih
      · rw [failing e]; rfl
      · exact (Dialogue.current_bind quiet _).trans (passing n)
  intro c
  exact ⟨(Dialogue.current_bind quiet _).trans (first c).1, follows (first c).2⟩

theorem orFail (result : Except CatalogError α) : part.FollowedBy (Catalog.orFail result) := by
  cases result with
  | ok a => exact .pure a
  | error e => exact .throw e

theorem checkName (kind : NameKind) (text : String) :
    part.FollowedBy (Catalog.checkName kind text) := by
  rw [Catalog.checkName]
  split
  · exact .pure ()
  · exact .throw _

theorem execute (text : String) : part.FollowedBy (Catalog.execute text) :=
  fun c => ⟨rfl, .executing (fun _ => rfl) (fun _ => rfl) fun _ => .done c _⟩

theorem syncDatabases : (Part.listing .databases).FollowedBy Catalog.syncDatabases :=
  fun _ => ⟨rfl, .listing (fun _ => rfl) (fun _ _ h => Except.ok.inj h) (fun _ _ h => nomatch h)
    fun _ => .done _ _⟩

theorem syncTables (d : Database) :
    (Part.listing (.tables d)).FollowedBy (Catalog.syncTables d) :=
  fun _ => ⟨rfl, .listing (fun _ => rfl) (fun _ _ h => Except.ok.inj h) (fun _ _ h => nomatch h)
    fun _ => .done _ _⟩

/-- An operation that learns what can be read from the rows of a part, and fails otherwise. -/
theorem reading {γ : Type} (read : List TextRow → Except CatalogError α)
    (learn : Catalog → α → Catalog) (known : Catalog → γ)
    (h : ∀ rows c, part.learn? rows c = learn c <$> read rows) : part.FollowedBy (do
      let found ← Catalog.rows part.statement
      let a ← Catalog.orFail (read found)
      modify fun c => learn c a
      return known (← MonadState.get)) := by
  intro c
  let behind (result : Except CatalogError α) : Underway γ :=
    ExceptT.run (do
      let a ← Catalog.orFail result
      modify fun c => learn c a
      return known (← MonadState.get)) c
  refine ⟨rfl, .listing (fun _ => rfl) (fun rows after hlearn => ?_) (fun rows e hlearn => ?_)
    fun rows => ?_⟩
  · show (behind (read rows)).current = after
    rw [h] at hlearn
    cases hread : read rows with
    | ok a => rw [hread] at hlearn; exact Except.ok.inj hlearn
    | error e => rw [hread] at hlearn; cases hlearn
  · show behind (read rows) = .done c (.error e)
    rw [h] at hlearn
    cases hread : read rows with
    | ok a => rw [hread] at hlearn; cases hlearn
    | error e' => rw [hread] at hlearn; rw [Except.error.inj hlearn]; rfl
  · show part.Follows (behind (read rows))
    cases read rows with
    | ok a => exact .done _ _
    | error e => exact .done c _

theorem allColumns (t : Table) : (Part.columns t).FollowedBy (Catalog.allColumns t) :=
  reading _ (fun c => c.learnColumns t) (fun c => c.columns t.id) fun _ _ => rfl

theorem allIndexes (t : Table) : (Part.indexes t).FollowedBy (Catalog.allIndexes t) :=
  reading _ (fun c => c.learnIndexes t) (fun c => c.indexes t.id) fun _ _ => rfl

theorem createUnlisted (name : String) :
    (Part.listing .databases).FollowedBy (Catalog.createUnlisted name) := by
  refine (execute _).bind fun _ => syncDatabases.bind fun _ => get.bind fun c => ?_
  cases c.database? name with
  | some d => exact .pure d
  | none => exact .throw _

end Part.FollowedBy

/-- Every operation follows the part that it reads from. -/
theorem Call.follows (call : Call) : call.part.FollowedBy call.task := by
  cases call with
  | getDatabase name =>
    simp only [task, Catalog.getDatabase]
    split
    · exact Part.FollowedBy.syncDatabases.bind fun _ => .bind .get fun _ => .pure _
    · exact .pure none
  | allDatabases => exact Part.FollowedBy.syncDatabases.bind fun _ => .bind .get fun _ => .pure _
  | createDatabase name =>
    refine (Part.FollowedBy.checkName _ _).bind fun _ => .bind .syncDatabases fun _ =>
      .bind .get fun c => ?_
    cases c.database? name with
    | some d => exact .throw _
    | none => exact .createUnlisted name
  | getOrCreateDatabase name =>
    refine (Part.FollowedBy.checkName _ _).bind fun _ => .bind .syncDatabases fun _ =>
      .bind .get fun c => ?_
    cases c.database? name with
    | some d => exact .pure d
    | none => exact .createUnlisted name
  | dropDatabase name =>
    exact (Part.FollowedBy.checkName _ _).bind fun _ => .bind (.execute _) fun _ => .syncDatabases
  | getTable d name =>
    simp only [task, Catalog.getTable]
    split
    · exact (Part.FollowedBy.syncTables d).bind fun _ => .bind .get fun _ => .pure _
    · exact .pure none
  | allTables d => exact (Part.FollowedBy.syncTables d).bind fun _ => .bind .get fun _ => .pure _
  | createTable d m =>
    refine (Part.FollowedBy.orFail _).bind fun text => .bind (.syncTables d) fun _ =>
      .bind .get fun c => ?_
    split
    · exact .throw_bind _ _
    · refine (Part.FollowedBy.execute _).bind fun _ => .bind (.syncTables d) fun _ =>
        .bind .get fun c => ?_
      cases c.table? d m.table with
      | some t => exact .pure t
      | none => exact .throw _
  | getColumn t name => exact (Part.FollowedBy.allColumns t).bind fun _ => .pure _
  | allColumns t => exact .allColumns t
  | getIndex t name => exact (Part.FollowedBy.allIndexes t).bind fun _ => .pure _
  | allIndexes t => exact .allIndexes t

/-! ### What is seen -/

/-- What a turn makes of the catalog, in an operation that follows a part. -/
inductive Part.Moves (part : Part) : Turn → Prop
  | learned {c c' : Catalog} {rows : List TextRow} (read : part.learn? rows c = .ok c') :
      Moves part ⟨c, ⟨.rows part.statement, some (.ok rows)⟩, c'⟩
  | unreadable {c : Catalog} {rows : List TextRow} {e : CatalogError}
      (read : part.learn? rows c = .error e) :
      Moves part ⟨c, ⟨.rows part.statement, some (.ok rows)⟩, c⟩
  | executed (c : Catalog) (text : String) (n : UInt64) :
      Moves part ⟨c, ⟨.execute text, some (.ok n)⟩, c⟩
  | failed (c : Catalog) (q : CatalogRequest) (e : ConnectionError) :
      Moves part ⟨c, ⟨q, some (.error e)⟩, c⟩
  | unanswered (c : Catalog) (q : CatalogRequest) : Moves part ⟨c, ⟨q, none⟩, c⟩

section Seen

variable {part : Part} {α : Type} {d : Underway α} {turns : List Turn} {o : Reach α}

/-- What becomes of a question: a failure ends the operation, and any answer moves the catalog. -/
theorem Part.Follows.answered {c : Catalog} {q : CatalogRequest}
    {k : CatalogRequest.Answer q → Underway α} (h : part.Follows (.ask c q k)) :
    (∀ e, k (.error e) = .done c (.error (.connection e))) ∧
      ∀ answer, part.Moves ⟨c, ⟨q, some answer⟩, (k answer).current⟩ ∧ part.Follows (k answer) := by
  have failed {q : CatalogRequest} {k : CatalogRequest.Answer q → Underway α} {e : ConnectionError}
      (hfailing : k (.error e) = .done c (.error (.connection e))) :
      part.Moves ⟨c, ⟨q, some (.error e)⟩, (k (.error e)).current⟩ ∧
        part.Follows (k (.error e)) := by
    rw [hfailing]
    exact ⟨.failed c q e, .done c _⟩
  cases h with
  | listing failing learning refusing behind =>
    refine ⟨failing, fun answer => ?_⟩
    cases answer with
    | error e => exact failed (failing e)
    | ok rows =>
      refine ⟨?_, behind rows⟩
      cases hread : part.learn? rows c with
      | ok after => exact learning rows after hread ▸ .learned hread
      | error e =>
        rw [refusing rows e hread]
        exact .unreadable hread
  | executing failing passing behind =>
    refine ⟨failing, fun answer => ?_⟩
    cases answer with
    | error e => exact failed (failing e)
    | ok n =>
      refine ⟨?_, behind n⟩
      rw [passing n]
      exact .executed c _ n

theorem Part.Follows.moves (h : part.Follows d) (w : Watched d turns o) :
    ∀ turn ∈ turns, part.Moves turn := by
  induction w with
  | done c result => simp
  | answered behind ih =>
    obtain ⟨hmoves, hfollows⟩ := h.answered.2 _
    exact List.forall_mem_cons.mpr ⟨hmoves, ih hfollows⟩
  | abandoned c q k =>
    intro m hm
    rw [List.mem_singleton.mp hm]
    exact .unanswered c q

/-- A failure of the server is the last that is seen of an operation. It leaves the catalog as it
was, and it is passed on. -/
theorem Part.Follows.failing (h : part.Follows d) (w : Watched d turns o) :
    ∀ turn ∈ turns, ∀ e, turn.asked.answer = some (.error e) →
      turns.getLast? = some turn ∧ turn.after = turn.before ∧
        o = .finished turn.before (.error (.connection e)) := by
  induction w with
  | done c result => simp
  | @answered c q k answer rest o behind ih =>
    obtain ⟨hfailing, hanswered⟩ := h.answered
    refine List.forall_mem_cons.mpr ⟨fun e he => ?_, fun turn hturn e he => ?_⟩
    · obtain rfl : answer = .error e := Option.some.inj he
      rw [hfailing e] at behind ⊢
      cases behind
      exact ⟨rfl, rfl, rfl⟩
    · obtain ⟨hlast, hsame, hend⟩ := ih (hanswered answer).2 turn hturn e he
      exact ⟨by rw [List.getLast?_cons, hlast]; rfl, hsame, hend⟩
  | abandoned c q k => simp

end Seen

end Catalog

end TypedSql
