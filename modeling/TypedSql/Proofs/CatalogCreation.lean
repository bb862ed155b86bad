/-
Creating a database or a table.

The three operations that create are one: what cannot be created is refused before anything is
asked; what the server lists is not created; and what was created is looked for in a second list
(`Creation.task_eq`). From any catalog, and whatever the server answers, such an operation goes one
of ten ways (`Creation.goes`), and `Creation.orderly` says what is common to them: what is asked, and
when, and what is given.
-/
import TypedSql.Proofs.CatalogResync

namespace TypedSql

/-- The first entry that has a value stays the first one. -/
theorem Entry.find?_merge {α : Type} [DecidableEq α] {old : List (Entry α)} {entry : Entry α}
    {value : α} (hknown : old.find? (fun e => e.value == value) = some entry) {fresh : List α}
    (h : value ∈ fresh) (next : Nat) :
    (merge old next fresh).1.find? (fun e => e.value == value) = some entry := by
  induction fresh generalizing next with
  | nil => simp at h
  | cons a rest ih =>
    rw [merge]
    by_cases heq : a = value
    · subst heq
      have hvalue := List.find?_some hknown
      simp only [hknown]
      exact List.find?_cons_of_pos hvalue
    · have hrest : value ∈ rest := (List.mem_cons.mp h).resolve_left (Ne.symm heq)
      cases hfind : old.find? (fun e => e.value == a) with
      | some first =>
        have hvalue : first.value = a := by simpa using List.find?_some hfind
        simpa [hvalue, heq] using ih hrest next
      | none => simpa [heq] using ih hrest (next + 1)

open Dialogue (Traced)

namespace Catalog

/-- A question of the catalog, and the answer if there was one. -/
abbrev Event := Asked CatalogRequest.Answer

variable {α : Type} {c : Catalog} {l : Listing} {rows : List TextRow} {events : List Event}
  {o : Reach α}

/-! ### Traces of operations of the catalog -/

namespace Event

/-- A question that was never answered. -/
def unanswered (q : CatalogRequest) : Event :=
  ⟨q, none⟩

/-- A question at which the server failed. -/
def failed (q : CatalogRequest) (e : ConnectionError) : Event :=
  ⟨q, some (.error e)⟩

/-- A list that came in. -/
def listed (l : Listing) (rows : List TextRow) : Event :=
  ⟨.rows l.statement, some (.ok rows)⟩

/-- A statement that the server ran. -/
def ran (text : String) (n : UInt64) : Event :=
  ⟨.execute text, some (.ok n)⟩

variable {q q' : CatalogRequest} {e e' : ConnectionError} {rows rows' : List TextRow}
  {text : String} {n n' : UInt64}

@[simp] theorem question_unanswered : (unanswered q).question = q := rfl
@[simp] theorem question_failed : (failed q e).question = q := rfl
@[simp] theorem question_listed : (listed l rows).question = .rows l.statement := rfl
@[simp] theorem question_ran : (ran text n).question = .execute text := rfl

@[simp] theorem listed_eq_listed : listed l rows = listed l rows' ↔ rows = rows' :=
  ⟨fun h => by cases h; rfl, congrArg _⟩

@[simp] theorem ran_eq_ran : ran text n = ran text n' ↔ n = n' :=
  ⟨fun h => by cases h; rfl, congrArg _⟩

@[simp] theorem failed_eq_failed : failed q e = failed q' e' ↔ q = q' ∧ e = e' :=
  ⟨fun h => by cases h; exact ⟨rfl, rfl⟩, by rintro ⟨rfl, rfl⟩; rfl⟩

@[simp] theorem unanswered_ne_listed : unanswered q ≠ listed l rows := fun h => nomatch h
@[simp] theorem failed_ne_unanswered : failed q' e ≠ unanswered q := fun h => nomatch h
@[simp] theorem failed_ne_listed : failed q' e ≠ listed l rows := fun h => nomatch h
@[simp] theorem failed_ne_ran : failed q' e ≠ ran text n := fun h => nomatch h
@[simp] theorem ran_ne_unanswered : ran text n ≠ unanswered q := fun h => nomatch h
@[simp] theorem ran_ne_failed : ran text n ≠ failed q' e := fun h => nomatch h
@[simp] theorem ran_ne_listed : ran text n ≠ listed l rows := fun h => nomatch h

end Event

/-- An operation that begins with a question was abandoned there, or it failed, or it went on with
the answer. -/
theorem traced_ask_bind {q : CatalogRequest} {f : q.Reply → CatalogTask α} :
    Traced ((CatalogTask.ask q >>= f).run c) events o ↔
      (events = [Event.unanswered q] ∧ o = .waiting c) ∨
      (∃ e, events = [Event.failed q e] ∧ o = .finished c (.error (.connection e))) ∨
      ∃ (a : q.Reply) (rest : List Event),
        events = ⟨q, some (.ok a)⟩ :: rest ∧ Traced ((f a).run c) rest o := by
  refine Dialogue.traced_ask.trans (or_congr_right ?_)
  constructor
  · rintro ⟨answer, rest, rfl, behind⟩
    cases answer with
    | error e =>
      obtain ⟨rfl, rfl⟩ := Dialogue.traced_done.mp behind
      exact .inl ⟨e, rfl, rfl⟩
    | ok a => exact .inr ⟨a, rest, rfl, behind⟩
  · rintro (⟨e, rfl, rfl⟩ | ⟨a, rest, rfl, behind⟩)
    · exact ⟨.error e, [], rfl, .done c _⟩
    · exact ⟨.ok a, rest, rfl, behind⟩

theorem traced_get_bind {f : Catalog → CatalogTask α} :
    Traced ((get >>= f).run c) events o ↔ Traced ((f c).run c) events o :=
  Iff.rfl

theorem traced_orFail {result : Except CatalogError α} :
    Traced ((orFail result).run c) events o ↔ events = [] ∧ o = .finished c result := by
  cases result <;> exact Dialogue.traced_done

/-- Asks for a list, and learns it. -/
def Listing.sync : Listing → CatalogTask Unit
  | databases => syncDatabases
  | tables d => syncTables d

theorem traced_sync_bind {f : Unit → CatalogTask α} :
    Traced ((l.sync >>= f).run c) events o ↔
      (events = [Event.unanswered (.rows l.statement)] ∧ o = .waiting c) ∨
      (∃ e, events = [Event.failed (.rows l.statement) e] ∧
        o = .finished c (.error (.connection e))) ∨
      ∃ (rows : List TextRow) (rest : List Event),
        events = ⟨.rows l.statement, some (.ok rows)⟩ :: rest ∧
          Traced ((f ()).run (l.learn rows c)) rest o := by
  have hsync : l.sync >>= f = CatalogTask.ask (.rows l.statement) >>= fun found =>
      modify (fun c => l.learn found c) >>= f := by
    cases l <;> exact bind_assoc _ _ _
  rw [hsync, traced_ask_bind]
  rfl

/-! ### Creations -/

/-- A creation that is asked for: of a database, which may be there already or must not, or of the
table of a model, which must not be there. -/
inductive Creation where
  | database (name : String) (mayExist : Bool)
  | table (owner : Database) (m : RowModel)

namespace Creation

/-- What a creation gives. -/
def Result : Creation → Type
  | database .. => Database
  | table .. => Table

/-- The operation. -/
def task : (x : Creation) → CatalogTask x.Result
  | database name false => createDatabase name
  | database name true => getOrCreateDatabase name
  | table owner m => createTable owner m

/-- The list that the object belongs to. -/
def listing : Creation → Listing
  | database .. => .databases
  | table owner _ => .tables owner

/-- The name of the object. -/
def name : Creation → String
  | database name _ => name
  | table _ m => m.table

/-- What is given, as an object. -/
def object : (x : Creation) → x.Result → Object
  | database .., d => .database d
  | table .., t => .table t

/-- The statement that creates the object, or why there is none: a database's name is no name, a
table's model cannot be compiled. -/
def statement : Creation → Except CatalogError String
  | database name _ =>
    if NameKind.database.admits name then .ok (createDatabaseText name)
    else .error (.invalidName .database name)
  | table owner m => createTableText owner.value m

/-- The known object of that name. -/
def known? : (x : Creation) → Catalog → Option x.Result
  | database name _, c => c.database? name
  | table owner m, c => c.table? owner m.table

/-- Whether the object may be there already. -/
def mayExist : Creation → Bool
  | database _ mayExist => mayExist
  | table .. => false

/-- What comes of an object that is there already. -/
def existing : (x : Creation) → x.Result → Except CatalogError x.Result
  | database _ true, d => .ok d
  | database name false, _ => .error (.alreadyExists .database name)
  | table _ m, _ => .error (.alreadyExists .table m.table)

/-- Creates an object that is not listed. -/
def make (x : Creation) (text : String) : CatalogTask x.Result := do
  let _ ← execute text
  x.listing.sync
  match x.known? (← get) with
  | some object => pure object
  | none => throw (.introspection (.missingAfterCreate x.listing.kind x.name))

theorem createUnlisted_eq (name : String) (mayExist : Bool) :
    createUnlisted name = (database name mayExist).make (createDatabaseText name) := by
  refine bind_congr (x := execute (createDatabaseText name)) fun _ =>
    bind_congr (x := syncDatabases) fun _ => bind_congr (x := get) fun c => ?_
  simp only [known?]
  cases c.database? name <;> rfl

/-- Every creation goes alike: it is refused, or it looks for the object and creates it if it is not
listed. -/
theorem task_eq (x : Creation) : x.task = (do
    let text ← orFail x.statement
    x.listing.sync
    match x.known? (← get) with
    | some object => orFail (x.existing object)
    | none => x.make text) := by
  cases x with
  | database name mayExist =>
    by_cases hname : NameKind.database.admits name = true
    · have hcheck : checkName .database name = pure () := if_pos hname
      have hstatement : (database name mayExist).statement = .ok (createDatabaseText name) :=
        if_pos hname
      cases mayExist
      all_goals
        simp only [task, createDatabase, getOrCreateDatabase, hcheck, hstatement, orFail, pure_bind]
        refine bind_congr (x := syncDatabases) fun _ => bind_congr (x := get) fun c => ?_
        simp only [known?]
        cases c.database? name with
        | some d => rfl
        | none => exact createUnlisted_eq name _
    · have hcheck : checkName .database name = throw (.invalidName .database name) :=
        if_neg hname
      have hstatement : (database name mayExist).statement =
          .error (.invalidName .database name) := if_neg hname
      cases mayExist <;>
        simp only [task, createDatabase, getOrCreateDatabase, hcheck, hstatement, orFail] <;> rfl
  | table owner m =>
    refine bind_congr fun text => bind_congr fun _ => bind_congr fun c => ?_
    simp only [known?]
    cases c.table? owner m.table with
    | some t => rfl
    | none =>
      refine bind_congr (x := execute text) fun _ => bind_congr (x := syncTables owner) fun _ =>
        bind_congr (x := get) fun c => ?_
      simp only [known?]
      cases c.table? owner m.table <;> rfl

/-! ### Ways that a creation goes -/

variable {x : Creation} {text : String} {r : x.Result}

theorem known?_eq_none : x.known? c = none ↔ x.name ∉ (x.listing.objects c).map Object.name := by
  cases x with
  | database name mayExist =>
    exact List.find?_eq_none.trans
      (by simp [listing, Listing.objects, Creation.name, Object.name])
  | table owner m =>
    exact List.find?_eq_none.trans
      (by simp [listing, Listing.objects, Creation.name, Object.name])

theorem known?_eq_some (h : x.known? c = some r) :
    x.object r ∈ x.listing.objects c ∧ (x.object r).name = x.name := by
  cases x with
  | database name mayExist =>
    exact ⟨List.mem_map_of_mem (List.mem_of_find?_eq_some h),
      beq_iff_eq.mp (List.find?_some (p := fun d : Database => d.value == name) h)⟩
  | table owner m =>
    exact ⟨List.mem_map_of_mem (List.mem_of_find?_eq_some h),
      beq_iff_eq.mp (List.find?_some (p := fun t : Table => t.value.name == m.table) h)⟩

/-- After a list came in, the object is known if and only if the list names it. -/
theorem known?_learn : x.known? (x.listing.learn rows c) = none ↔
    ¬ x.listing.Names rows x.name := by
  rw [known?_eq_none, names_learn, mem_listed]

/-- The ways that a creation goes which is not refused. -/
inductive Goes (x : Creation) (text : String) (c : Catalog) :
    List Event → Reach x.Result → Prop
  /-- The first list was never answered, or it failed. -/
  | waits : Goes x text c [Event.unanswered (.rows x.listing.statement)] (.waiting c)
  | fails (e : ConnectionError) : Goes x text c [Event.failed (.rows x.listing.statement) e]
      (.finished c (.error (.connection e)))
  /-- The object was listed. -/
  | listed (rows : List TextRow) (r : x.Result)
      (known : x.known? (x.listing.learn rows c) = some r) :
      Goes x text c [Event.listed x.listing rows]
        (.finished (x.listing.learn rows c) (x.existing r))
  /-- The object was not listed, and its creation was never answered, or it failed. -/
  | createWaits (rows : List TextRow) (unknown : x.known? (x.listing.learn rows c) = none) :
      Goes x text c [Event.listed x.listing rows, Event.unanswered (.execute text)]
        (.waiting (x.listing.learn rows c))
  | createFails (rows : List TextRow) (unknown : x.known? (x.listing.learn rows c) = none)
      (e : ConnectionError) :
      Goes x text c
        [Event.listed x.listing rows, Event.failed (.execute text) e]
        (.finished (x.listing.learn rows c) (.error (.connection e)))
  /-- The object was created, and the second list was never answered, or it failed. -/
  | lookWaits (rows : List TextRow) (unknown : x.known? (x.listing.learn rows c) = none)
      (n : UInt64) :
      Goes x text c [Event.listed x.listing rows,
        Event.ran text n, Event.unanswered (.rows x.listing.statement)]
        (.waiting (x.listing.learn rows c))
  | lookFails (rows : List TextRow) (unknown : x.known? (x.listing.learn rows c) = none)
      (n : UInt64) (e : ConnectionError) :
      Goes x text c [Event.listed x.listing rows,
        Event.ran text n, Event.failed (.rows x.listing.statement) e]
        (.finished (x.listing.learn rows c) (.error (.connection e)))
  /-- The object was created, and then it was listed, or it was not. -/
  | created (rows : List TextRow) (unknown : x.known? (x.listing.learn rows c) = none) (n : UInt64)
      (rows' : List TextRow) (r : x.Result)
      (known : x.known? (x.listing.learn rows' (x.listing.learn rows c)) = some r) :
      Goes x text c [Event.listed x.listing rows,
        Event.ran text n, Event.listed x.listing rows']
        (.finished (x.listing.learn rows' (x.listing.learn rows c)) (.ok r))
  | missing (rows : List TextRow) (unknown : x.known? (x.listing.learn rows c) = none) (n : UInt64)
      (rows' : List TextRow)
      (unknown' : x.known? (x.listing.learn rows' (x.listing.learn rows c)) = none) :
      Goes x text c [Event.listed x.listing rows,
        Event.ran text n, Event.listed x.listing rows']
        (.finished (x.listing.learn rows' (x.listing.learn rows c))
          (.error (.introspection (.missingAfterCreate x.listing.kind x.name))))

variable {o : Reach x.Result}

theorem goes_of_make {rows : List TextRow} (unknown : x.known? (x.listing.learn rows c) = none)
    (h : Traced ((x.make text).run (x.listing.learn rows c)) events o) :
    x.Goes text c (Event.listed x.listing rows :: events) o := by
  obtain ⟨rfl, rfl⟩ | ⟨e, rfl, rfl⟩ | ⟨n, rest, rfl, hcreated⟩ := traced_ask_bind.mp h
  · exact .createWaits rows unknown
  · exact .createFails rows unknown e
  obtain ⟨rfl, rfl⟩ | ⟨e, rfl, rfl⟩ | ⟨rows', rest, rfl, hlooked⟩ := traced_sync_bind.mp hcreated
  · exact .lookWaits rows unknown n
  · exact .lookFails rows unknown n e
  replace hlooked := traced_get_bind.mp hlooked
  cases hknown : x.known? (x.listing.learn rows' (x.listing.learn rows c)) with
  | some r =>
    rw [hknown] at hlooked
    obtain ⟨rfl, rfl⟩ := Dialogue.traced_done.mp hlooked
    exact .created rows unknown n rows' r hknown
  | none =>
    rw [hknown] at hlooked
    obtain ⟨rfl, rfl⟩ := Dialogue.traced_done.mp hlooked
    exact .missing rows unknown n rows' hknown

/-- A creation that is refused asks nothing. -/
theorem refused {e : CatalogError} (hstatement : x.statement = .error e)
    (h : Traced (x.task.run c) events o) : events = [] ∧ o = .finished c (.error e) := by
  rw [task_eq, hstatement] at h
  exact Dialogue.traced_done.mp h

/-- Whatever the server answers, a creation that is not refused goes one of these ways. -/
theorem goes (hstatement : x.statement = .ok text) (h : Traced (x.task.run c) events o) :
    x.Goes text c events o := by
  rw [task_eq, hstatement] at h
  obtain ⟨rfl, rfl⟩ | ⟨e, rfl, rfl⟩ | ⟨rows, rest, rfl, hlisted⟩ := traced_sync_bind.mp h
  · exact .waits
  · exact .fails e
  replace hlisted := traced_get_bind.mp hlisted
  cases hknown : x.known? (x.listing.learn rows c) with
  | some r =>
    rw [hknown] at hlisted
    obtain ⟨rfl, rfl⟩ := traced_orFail.mp hlisted
    exact .listed rows r hknown
  | none =>
    rw [hknown] at hlisted
    exact goes_of_make hknown hlisted

/-! ### What is common to them -/

theorem existing_eq (x : Creation) (r : x.Result) : x.existing r =
    if x.mayExist then .ok r else .error (.alreadyExists x.listing.kind x.name) := by
  cases x with
  | database name mayExist => cases mayExist <;> rfl
  | table owner m => rfl

/-- A database that is known stays if it is listed. -/
theorem known?_learn_of_known (hmay : x.mayExist = true) (h : x.known? c = some r)
    (hnamed : x.listing.Names rows x.name) : x.known? (x.listing.learn rows c) = some r := by
  cases x with
  | database name mayExist => exact Entry.find?_merge h (mem_listed.mpr hnamed) c.next
  | table owner m => cases hmay

/-- A creation that is not refused, whatever the server answered: what was asked, and what is
given. -/
structure Orderly (x : Creation) (text : String) (c : Catalog)
    (events : List Event) (o : Reach x.Result) : Prop where
  /-- The object is looked for, and it is looked for again after it was created. -/
  asked : events ≠ [] ∧ events.map Asked.question <+:
    [.rows x.listing.statement, .execute text, .rows x.listing.statement]
  /-- It is created if and only if the first list came in and did not name it. -/
  creates : .execute text ∈ events.map Asked.question ↔
    ∃ rows, events.head? = some (Event.listed x.listing rows) ∧
      ¬ x.listing.Names rows x.name
  /-- It is looked for again if and only if its creation succeeded. -/
  looks : events.length = 3 ↔ ∃ n : UInt64, Event.ran text n ∈ events
  /-- If it must not be there, the first list names it exactly if the failure says so. -/
  refuses : x.mayExist = false →
    ((∃ c', o = .finished c' (.error (.alreadyExists x.listing.kind x.name))) ↔
      ∃ rows, events.head? = some (Event.listed x.listing rows) ∧
        x.listing.Names rows x.name)
  /-- If it may be there and the first list names it, it is given as it is known. -/
  accepts : x.mayExist = true → ∀ rows,
    events.head? = some (Event.listed x.listing rows) →
    x.listing.Names rows x.name → ∃ r, o = .finished (x.listing.learn rows c) (.ok r) ∧
      x.known? (x.listing.learn rows c) = some r ∧ ∀ r', x.known? c = some r' → r' = r
  /-- What is given bears the name and is known, and the last list named it. -/
  gives : ∀ c' r, o = .finished c' (.ok r) →
    (x.object r).name = x.name ∧ x.object r ∈ x.listing.objects c' ∧
      ∃ rows, events.getLast? = some (Event.listed x.listing rows) ∧
        x.listing.Names rows x.name
  /-- It was created, and then it is not listed. -/
  misses : ∀ rows, events.length = 3 →
    events.getLast? = some (Event.listed x.listing rows) →
    ¬ x.listing.Names rows x.name →
    ∃ c', o = .finished c'
      (.error (.introspection (.missingAfterCreate x.listing.kind x.name)))
  /-- The first failure of the server is the end, and it is passed on. -/
  fails : ∀ q e, Event.failed q e ∈ events →
    events.getLast? = some (.failed q e) ∧ ∃ c', o = .finished c' (.error (.connection e))

theorem Goes.isOrderly (h : x.Goes text c events o) : x.Orderly text c events o := by
  cases h with
  | waits => constructor <;> simp
  | fails e => constructor <;> simp
  | listed rows r known =>
    have hnamed : x.listing.Names rows x.name :=
      not_not.mp fun hnot => by simp [known?_learn.mpr hnot] at known
    obtain ⟨hobject, hname⟩ := known?_eq_some known
    have hsame (hmay : x.mayExist = true) (r' : x.Result) (h : x.known? c = some r') : r' = r :=
      Option.some.inj ((known?_learn_of_known hmay h hnamed).symm.trans known)
    rw [existing_eq]
    cases hmay : x.mayExist with
    | false => constructor <;> simp [hmay, hnamed]
    | true =>
      constructor
      case accepts => simpa [hnamed, known] using hsame
      all_goals simp [hmay, hnamed, hobject, hname]
  | createWaits rows unknown =>
    have hnot := known?_learn.mp unknown
    constructor <;> simp [hnot]
  | createFails rows unknown e =>
    have hnot := known?_learn.mp unknown
    constructor <;> simp [hnot]
  | lookWaits rows unknown n =>
    have hnot := known?_learn.mp unknown
    constructor <;> simp [hnot]
  | lookFails rows unknown n e =>
    have hnot := known?_learn.mp unknown
    constructor <;> simp [hnot]
  | created rows unknown n rows' r known =>
    have hnot := known?_learn.mp unknown
    have hnamed : x.listing.Names rows' x.name :=
      not_not.mp fun hnot => by simp [known?_learn.mpr hnot] at known
    obtain ⟨hobject, hname⟩ := known?_eq_some known
    constructor <;> simp [hnot, hnamed, hobject, hname]
  | missing rows unknown n rows' unknown' =>
    have hnot := known?_learn.mp unknown
    constructor <;> simp [hnot]

/-- From any catalog, and whatever the server answers: a creation that is refused asks nothing, and
any other is orderly. -/
theorem orderly (x : Creation) (c : Catalog) {events : List Event} {o : Reach x.Result}
    (h : Traced (x.task.run c) events o) :
    (∀ e, x.statement = .error e → events = [] ∧ o = .finished c (.error e)) ∧
      ∀ text, x.statement = .ok text → x.Orderly text c events o :=
  ⟨fun _ hstatement => refused hstatement h, fun _ hstatement => (goes hstatement h).isOrderly⟩

/-- A database that is not listed is created. -/
theorem orderly_created :
    let x : Creation := .database "app" false
    let events : List Event := [.listed .databases (nameRows ["old"]),
      .ran (createDatabaseText "app") 1, .listed .databases (nameRows ["old", "app"])]
    ∃ c', Traced (x.task.run {}) events (.finished c' (.ok ⟨1, "app"⟩)) ∧
      x.Orderly (createDatabaseText "app") {} events (.finished c' (.ok ⟨1, "app"⟩)) := by
  intro x events
  have hstatement : x.statement = .ok (createDatabaseText "app") := by decide +kernel
  have htraced : ∃ c', Traced (x.task.run {}) events (.finished c' (.ok ⟨1, "app"⟩)) := by
    rw [task_eq, hstatement]
    exact ⟨_, .answered (.answered (.answered (.done _ _)))⟩
  obtain ⟨c', h⟩ := htraced
  exact ⟨c', h, (orderly x {} h).2 _ hstatement⟩

end Creation

end Catalog

end TypedSql
