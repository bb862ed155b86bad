/-
Runs of a connection.

A run is a list of operations, one after another, each begun at a time and with settings of its own
(`View`), answered in any way and perhaps abandoned at one of its requests (`Run`).

* `Run.stays` — a run keeps to links that were there at its start or that it opened;
* `Task.marked` — an operation that is abandoned leaves no link without the mark;
* `first_use_after_abandonment` — nothing is sent on a link on which an operation was abandoned,
  until `retarget` turns it to another user or database.
-/
import TypedSql.Proofs.ConnectionSteps

namespace TypedSql

namespace Dialogue

variable {Q : Type} {A : Q → Type} {σ α : Type}

/-- Only the last question of a trace can be without an answer. -/
theorem Traced.waiting_of_mem {d : Dialogue Q A σ α} {events : List (Asked A)} {o : Outcome σ α}
    {q : Q} (h : Traced d events o) (hq : ⟨q, none⟩ ∈ events) : o = .waiting o.left := by
  induction h with
  | done s a => cases hq
  | answered behind ih =>
    rcases List.mem_cons.mp hq with heq | hmem
    · cases heq
    · exact ih hmem
  | abandoned s q k => rfl

end Dialogue

namespace Request

/-- The link that a request is sent on. -/
def link? : Request → Option Link
  | openLink _ => none
  | query link _ | execute link _ | queryBound link _ | executeBound link _
  | changeUser link _ _ _ | disconnect link => some link

/-- The link that a request puts to use. A farewell does not. -/
def use? : Request → Option Link
  | disconnect _ => none
  | q => q.link?

/-- The link that a statement is sent on. -/
def statement? : Request → Option Link
  | query link _ | execute link _ | queryBound link _ | executeBound link _ => some link
  | openLink _ | changeUser .. | disconnect _ => none

theorem link?_of_use? {q : Request} {link : Link} (h : q.use? = some link) :
    q.link? = some link := by
  cases q <;> first | exact h | cases h

theorem use?_of_statement? {q : Request} {link : Link} (h : q.statement? = some link) :
    q.use? = some link := by
  cases q <;> first | exact h | cases h

end Request

namespace Connection

open Exchange (Made Reach)

/-- The link that came of a request. -/
def opened? : Event → Option Link
  | ⟨.openLink _, some ⟨.ok link, _⟩⟩ => some link
  | _ => none

/-- The links that were opened. -/
def openedBy (events : List Event) : List Link :=
  events.filterMap opened?

@[simp] theorem openedBy_append (first second : List Event) :
    openedBy (first ++ second) = openedBy first ++ openedBy second :=
  List.filterMap_append

/-! ### The links of one operation -/

/-- Only some links were talked to, and the connection holds no other. -/
structure Stays (links : Link → Prop) (events : List Event) (c : Connection) : Prop where
  held : ∀ link, c.link = some link → links link
  asked : ∀ event ∈ events, ∀ link, event.question.link? = some link → links link

section Links

variable {links : Link → Prop} {view : View} {c : Connection} {events : List Event}

theorem Stays.append {first second : List Event} {c' : Connection} (before : Stays links first c)
    (behind : Stays links second c') : Stays links (first ++ second) c' :=
  ⟨behind.held, fun event he => (List.mem_append.mp he).elim (before.asked event)
    (behind.asked event)⟩

theorem stays_nil (holds : ∀ link, c.link = some link → links link) : Stays links [] c :=
  ⟨holds, by simp⟩

theorem Stays.single {event : Event} (holds : ∀ link, c.link = some link → links link)
    (asked : ∀ link, event.question.link? = some link → links link) : Stays links [event] c :=
  ⟨holds, fun _ he => List.mem_singleton.mp he ▸ asked⟩

theorem Stays.of_link_eq {c' : Connection} (h : Stays links events c) (same : c'.link = c.link) :
    Stays links events c' :=
  ⟨fun link held => h.held link (same ▸ held), h.asked⟩

theorem Stays.failed {e : LinkError} (h : Stays links events c) :
    Stays links events (c.failed e) := by
  rw [Connection.failed]
  split
  · exact ⟨by rintro _ ⟨⟩, h.asked⟩
  · exact h

theorem link_recover {link : Link} (h : c.recover.link = some link) :
    c.inFlight = false ∧ c.link = some link := by
  cases hmark : c.inFlight with
  | true => rw [link_recover_of_inFlight hmark] at h; cases h
  | false => exact ⟨rfl, by rwa [recover_of_not_inFlight hmark] at h⟩

theorem Retargeting.stays {o : Reach Connection Unit} (h : Retargeting view c events o)
    (holds : ∀ link, c.link = some link → links link) : Stays links events o.left := by
  cases h with
  | unchanged | idle | refused => exact stays_nil holds
  | turning moves | turned moves =>
    exact .single holds fun link h => holds link (moves.held.trans h)
  | failed moves =>
    exact .failed (.single holds fun link h => holds link (moves.held.trans h))
  | leaving moves | left moves =>
    exact .single (by rintro _ ⟨⟩) fun link h => holds link (moves.held.trans h)

theorem Opening.stays {o : Reach Connection Link} (h : Opening view c events o)
    (holds : ∀ link, c.link = some link → links link)
    (opened : ∀ link ∈ openedBy events, links link) : Stays links events o.left := by
  cases h with
  | standing | refused => exact stays_nil holds
  | opening | failed => exact .single holds (by rintro _ ⟨⟩)
  | @opened target answer link free named good =>
    obtain ⟨reply, after⟩ := answer
    obtain rfl : reply = .ok link := good
    exact .single (by rintro _ ⟨⟩; exact opened link (List.mem_singleton.mpr rfl)) (by rintro _ ⟨⟩)

theorem Readying.stays {o : Reach Connection Link} (h : Readying view c events o)
    (holds : ∀ link, c.recover.link = some link → links link)
    (opened : ∀ link ∈ openedBy events, links link) : Stays links events o.left := by
  cases h with
  | turning follows | refused follows => exact follows.stays holds
  | held follows => exact (follows.stays holds).of_link_eq rfl
  | opening follows lacks opens | failed follows lacks opens =>
    rw [openedBy_append] at opened
    exact (follows.stays holds).append
      (opens.stays (follows.stays holds).held fun link h => opened link (List.mem_append_right _ h))
  | opened follows lacks opens =>
    rw [openedBy_append] at opened
    have behind := opens.stays (follows.stays holds).held
      fun link h => opened link (List.mem_append_right _ h)
    exact ((follows.stays holds).append behind).of_link_eq rfl

/-- A connection that is ready holds the link that it is ready to use, and is marked. -/
theorem Readying.holds {c' : Connection} {link : Link} {after : View}
    (h : Readying view c events (.finished c' (.ok link, after))) :
    c'.link = some link ∧ c'.inFlight = true := by
  cases h with
  | held follows holds => exact ⟨holds, rfl⟩
  | opened follows lacks opens => cases opens; exact ⟨rfl, rfl⟩

theorem Connecting.stays {o : Reach Connection Unit} (h : Connecting view c events o)
    (holds : ∀ link, c.recover.link = some link → links link)
    (opened : ∀ link ∈ openedBy events, links link) : Stays links events o.left := by
  cases h with
  | waiting readies | refused readies => exact readies.stays holds opened
  | connected readies => exact (readies.stays holds opened).of_link_eq rfl

/-- A request that is sent on the link that it is given. -/
def OnLink (q : Link → Request) : Prop :=
  ∀ link, (q link).link? = some link

/-- What an operation that runs a statement sends is the statement. -/
theorem Task.statement?_of_request? {task : Task} {q : Link → Request}
    (h : task.request? = some (.ok q)) (link : Link) : (q link).statement? = some link := by
  cases task with
  | connect | close | retarget => cases h
  | queryRows | execute => cases h; rfl
  | queryBound statement bindings | executeBound statement bindings =>
    cases hb : bound statement bindings with
    | error e => rw [request?, hb] at h; cases h
    | ok b => rw [request?, hb] at h; cases h; rfl

theorem Task.onLink_of_request? {task : Task} {q : Link → Request}
    (h : task.request? = some (.ok q)) : OnLink q := fun link =>
  Request.link?_of_use? (Request.use?_of_statement? (statement?_of_request? h link))

theorem Sending.stays {q : Link → Request} {o : Reach Connection Unit}
    (h : Sending q view c events o) (on : OnLink q)
    (holds : ∀ link, c.recover.link = some link → links link)
    (opened : ∀ link ∈ openedBy events, links link) : Stays links events o.left := by
  have sent {first : List Event} {c' : Connection} {link : Link} {after : View}
      {event : Event} (readies : Readying view c first (.finished c' (.ok link, after)))
      (question : event.question = q link)
      (opened : ∀ link ∈ openedBy (first ++ [event]), links link) :
      Stays links (first ++ [event]) c' := by
    rw [openedBy_append] at opened
    have ready := readies.stays holds fun link h => opened link (List.mem_append_left _ h)
    refine ready.append (.single ready.held fun link' h => ?_)
    rw [question, on link] at h
    exact ready.held link' (readies.holds.1.trans h)
  cases h with
  | waiting readies | refused readies => exact readies.stays holds opened
  | sent readies => exact sent readies rfl opened
  | answered readies => exact (sent readies rfl opened).of_link_eq rfl
  | failed readies =>
    refine .failed ?_
    exact (sent readies rfl opened).of_link_eq rfl

theorem Closing.stays {o : Reach Connection Unit} (h : Closing view c events o)
    (holds : ∀ link, c.link = some link → links link) : Stays links events o.left := by
  cases h with
  | idle => exact stays_nil (by rintro _ ⟨⟩)
  | leaving held | left held | failed held =>
    exact .single (by rintro _ ⟨⟩) fun link h => holds link (held.trans h)

/-- An operation keeps to the link that the connection held and to those that it opens. -/
theorem Task.Going.stays {task : Task} {o : Reach Connection Unit} (h : Going view c task events o)
    (holds : ∀ link, c.link = some link → links link)
    (opened : ∀ link ∈ openedBy events, links link) : Stays links events o.left := by
  have recovered : ∀ link, c.recover.link = some link → links link :=
    fun link h => holds link (link_recover h).2
  cases h with
  | connect goes => exact goes.stays recovered opened
  | close goes => exact goes.stays holds
  | retarget goes => exact goes.stays holds
  | unbound => exact stays_nil holds
  | send sends goes => exact goes.stays (onLink_of_request? sends) recovered opened

/-! ### What is left behind -/

theorem Retargeting.marked {c' : Connection} {link : Link}
    (h : Retargeting view c events (.waiting c')) (holds : c'.link = some link) :
    c'.inFlight = true := by
  cases h with
  | turning => rfl
  | leaving => cases holds

theorem Readying.marked {c' : Connection} {link : Link} (h : Readying view c events (.waiting c'))
    (holds : c'.link = some link) : c'.inFlight = true := by
  cases h with
  | turning follows => exact follows.marked holds
  | opening follows lacks opens =>
    cases opens
    rw [lacks] at holds
    cases holds

/-- An operation that is abandoned leaves no link without the mark. -/
theorem Task.Going.marked {task : Task} {c' : Connection} {link : Link}
    (h : Going view c task events (.waiting c')) (holds : c'.link = some link) :
    c'.inFlight = true := by
  cases h with
  | connect goes => cases goes with | waiting readies => exact readies.marked holds
  | close goes => cases goes; cases holds
  | retarget goes => exact goes.marked holds
  | send sends goes =>
    cases goes with
    | waiting readies => exact readies.marked holds
    | sent readies => exact readies.holds.2

/-- A link that is given up, or that will be when the connection is made ready. -/
def Spent (link : Link) (c : Connection) : Prop :=
  c.link = some link → c.inFlight = true

/-- The requests put a link to use. -/
def Uses (events : List Event) (link : Link) : Prop :=
  ∃ event ∈ events, event.question.use? = some link

/-- The one request is to turn a link to another user or database. -/
def OnlyTurns (events : List Event) (link : Link) : Prop :=
  ∃ user password database answer,
    events = [⟨.changeUser link user password database, answer⟩]

theorem Stays.spent {link : Link} (h : Stays (· ≠ link) events c) :
    ¬ Uses events link ∧ Spent link c :=
  ⟨fun ⟨event, he, huse⟩ => h.asked event he link (Request.link?_of_use? huse) rfl,
    fun holds => absurd rfl (h.held link holds)⟩

theorem not_uses_nil {link : Link} : ¬ Uses [] link := by
  simp [Uses]

theorem not_uses_farewell {link other : Link} {answer : Option (Answer (.disconnect other))} :
    ¬ Uses [⟨.disconnect other, answer⟩] link := by
  simp [Uses, Request.use?]

theorem ne_of_spent_recover {link : Link} (spent : Spent link c) :
    ∀ other, c.recover.link = some other → other ≠ link := by
  rintro _ h rfl
  obtain ⟨unmarked, held⟩ := link_recover h
  exact absurd (spent held) (by simp [unmarked])

/-- Following the settings is the one way to a link that is spent. -/
theorem Retargeting.spent {o : Reach Connection Unit} {link : Link}
    (h : Retargeting view c events o) (spent : Spent link c) :
    ¬ Uses events link ∧ Spent link o.left ∨ OnlyTurns events link := by
  by_cases held : c.link = some link
  · have same {other : Link} {current next : Target} (moves : Moves view c other current next) :
        other = link := Option.some.inj (moves.held.symm.trans held)
    cases h with
    | unchanged | idle | refused => exact .inl ⟨not_uses_nil, spent⟩
    | turning moves | turned moves | failed moves =>
      obtain rfl := same moves
      exact .inr ⟨_, _, _, _, rfl⟩
    | leaving | left => exact .inl ⟨not_uses_farewell, by rintro ⟨⟩⟩
  · refine .inl (h.stays fun other hother => ?_).spent
    rintro rfl
    exact held hother

theorem Closing.spent {o : Reach Connection Unit} {link : Link} (h : Closing view c events o) :
    ¬ Uses events link ∧ Spent link o.left := by
  cases h with
  | idle => exact ⟨not_uses_nil, by rintro ⟨⟩⟩
  | leaving | left | failed => exact ⟨not_uses_farewell, by rintro ⟨⟩⟩

/-- Making ready gives a spent link up, so that `retarget`, which does not, is the one way to it. -/
theorem Task.Going.spent {task : Task} {o : Reach Connection Unit} {link : Link}
    (h : Going view c task events o) (spent : Spent link c) (fresh : link ∉ openedBy events) :
    ¬ Uses events link ∧ Spent link o.left ∨ task = .retarget ∧ OnlyTurns events link := by
  have others : ∀ other ∈ openedBy events, other ≠ link := by
    rintro _ h rfl
    exact fresh h
  cases h with
  | connect goes => exact .inl (goes.stays (ne_of_spent_recover spent) others).spent
  | close goes => exact .inl goes.spent
  | retarget goes => exact (goes.spent spent).imp_right fun turns => ⟨rfl, turns⟩
  | unbound => exact .inl ⟨not_uses_nil, spent⟩
  | send sends goes =>
    exact .inl
      (goes.stays (onLink_of_request? sends) (ne_of_spent_recover spent) others).spent

end Links

/-! ### Runs -/

/-- An operation that was begun: when and with which settings, what it asked and was answered, and
how far it came. -/
structure Performed where
  task : Task
  view : View
  events : List Event
  outcome : Reach Connection Unit

/-- A connection was taken by operations, one after another, to another one. -/
inductive Run : Connection → List Performed → Connection → Prop
  | nil (c : Connection) : Run c [] c
  | cons {c c' : Connection} {p : Performed} {history : List Performed}
      (made : p.task.exchange.Made p.view c p.events p.outcome)
      (behind : Run p.outcome.left history c') : Run c (p :: history) c'

/-- What was asked and answered in a run. -/
def eventsOf (history : List Performed) : List Event :=
  history.flatMap Performed.events

section Runs

variable {c c' : Connection} {p : Performed} {before after history : List Performed} {link : Link}

@[simp] theorem eventsOf_cons : eventsOf (p :: history) = p.events ++ eventsOf history :=
  rfl

@[simp] theorem eventsOf_append : eventsOf (before ++ after) = eventsOf before ++ eventsOf after :=
  List.flatMap_append

theorem run_cons : Run c (p :: history) c' ↔
    p.task.exchange.Made p.view c p.events p.outcome ∧ Run p.outcome.left history c' := by
  constructor
  · rintro ⟨⟩
    exact ⟨‹_›, ‹_›⟩
  · rintro ⟨made, behind⟩
    exact .cons made behind

theorem run_append : Run c (before ++ after) c' ↔
    ∃ middle, Run c before middle ∧ Run middle after c' := by
  induction before generalizing c with
  | nil =>
    constructor
    · exact fun h => ⟨c, .nil c, h⟩
    · rintro ⟨_, ⟨⟩, h⟩
      exact h
  | cons p before ih =>
    rw [List.cons_append, run_cons]
    constructor
    · rintro ⟨made, behind⟩
      obtain ⟨middle, hbefore, hafter⟩ := ih.mp behind
      exact ⟨middle, .cons made hbefore, hafter⟩
    · rintro ⟨middle, hbefore, hafter⟩
      obtain ⟨made, hbefore⟩ := run_cons.mp hbefore
      exact ⟨made, ih.mpr ⟨middle, hbefore, hafter⟩⟩

/-- A run keeps to the link that the connection held at its start and to those that it opens. -/
theorem Run.stays {links : Link → Prop} (run : Run c history c')
    (holds : ∀ link, c.link = some link → links link)
    (opened : ∀ link ∈ openedBy (eventsOf history), links link) :
    Stays links (eventsOf history) c' := by
  induction run with
  | nil c => exact stays_nil holds
  | cons made behind ih =>
    rw [eventsOf_cons, openedBy_append] at opened
    have first := (Task.made made).stays holds fun link h => opened link (List.mem_append_left _ h)
    exact first.append (ih first.held fun link h => opened link (List.mem_append_right _ h))

/-- A spent link is put to use again by `retarget` first, if at all. -/
theorem Run.first_use_of_spent (run : Run c history c') (spent : Spent link c)
    (fresh : link ∉ openedBy (eventsOf history)) (used : Uses (eventsOf history) link) :
    ∃ quiet p rest, history = quiet ++ p :: rest ∧ ¬ Uses (eventsOf quiet) link ∧
      p.task = .retarget ∧ OnlyTurns p.events link := by
  induction run with
  | nil => exact absurd used not_uses_nil
  | @cons c c' p history made behind ih =>
    rw [eventsOf_cons, openedBy_append, List.mem_append, not_or] at fresh
    obtain ⟨unused, spent⟩ | ⟨turning, turns⟩ := (Task.made made).spent spent fresh.1
    · have later : Uses (eventsOf history) link := by
        obtain ⟨event, he, huse⟩ := used
        obtain he | he := List.mem_append.mp he
        · exact absurd ⟨event, he, huse⟩ unused
        · exact ⟨event, he, huse⟩
      obtain ⟨quiet, q, rest, rfl, hquiet, hq⟩ := ih spent fresh.2 later
      refine ⟨p :: quiet, q, rest, rfl, ?_, hq⟩
      rintro ⟨event, he, huse⟩
      obtain he | he := List.mem_append.mp he
      · exact unused ⟨event, he, huse⟩
      · exact hquiet ⟨event, he, huse⟩
    · exact ⟨[], p, history, rfl, not_uses_nil, turning, turns⟩

/-- Once an operation was dropped while it waited for an answer on a link, nothing is sent on that
link any more, for a statement or to turn it, until `retarget` turns it. -/
theorem first_use_after_abandonment {store : Store} {dropped : Performed} {q : Request}
    (run : Run (ofStore store) (before ++ dropped :: after) c)
    (distinct : (openedBy (eventsOf (before ++ dropped :: after))).Nodup)
    (abandoned : ⟨q, none⟩ ∈ dropped.events) (on : q.link? = some link)
    (used : Uses (eventsOf after) link) :
    ∃ quiet p rest, after = quiet ++ p :: rest ∧ ¬ Uses (eventsOf quiet) link ∧
      p.task = .retarget ∧ OnlyTurns p.events link := by
  obtain ⟨middle, hbefore, hrun⟩ := run_append.mp run
  obtain ⟨made, hafter⟩ := run_cons.mp hrun
  -- the link was opened before, and so it is not opened again
  have known : link ∈ openedBy (eventsOf before) ++ openedBy dropped.events := by
    have first : Stays (· ∈ openedBy (eventsOf before) ++ openedBy dropped.events) _ middle :=
      hbefore.stays (by rintro _ ⟨⟩) fun _ h => List.mem_append_left _ h
    exact ((Task.made made).stays first.held fun _ h => List.mem_append_right _ h).asked _
      abandoned link on
  have fresh : link ∉ openedBy (eventsOf after) := by
    rw [eventsOf_append, eventsOf_cons, openedBy_append, openedBy_append, ← List.append_assoc]
      at distinct
    exact fun h => List.disjoint_of_nodup_append distinct known h
  -- what the dropped operation left is marked
  have waiting : dropped.outcome = .waiting dropped.outcome.left :=
    Dialogue.Traced.waiting_of_mem made abandoned
  rw [waiting] at made
  exact hafter.first_use_of_spent (Task.made made).marked fresh used

end Runs

/-! ### A dropped operation and a change of the settings -/

/-- The database `app` of a server, for a user. -/
def appTarget (user : String) : Target where
  host := .name "db"
  port := 3306
  user := user
  password := some "p"
  database := some "app"
  options := {}

/-- Settings that name it. -/
def appStore (user : String) (version : Nat) : Store :=
  ⟨{ connectionString := "mysql://" ++ user ++ ":p@db/app" }, version⟩

/-- A connection whose link was opened for a user or turned to one. -/
def appLinked (user : String) (version : Nat) (inFlight : Bool) : Connection where
  link := some ⟨0⟩
  target := some (appTarget user)
  subscription := ⟨version⟩
  inFlight
  phase := .opened
  opener := { window := Duration.nanosPerSecond }

/-- A statement that is abandoned while the server runs it. -/
def droppedQuery : Performed where
  task := .queryRows "SELECT SLEEP(60)"
  view := ⟨0, appStore "u" 0⟩
  events := [⟨.openLink (appTarget "u"), some ⟨.ok (⟨0⟩ : Link), ⟨1, appStore "u" 0⟩⟩⟩,
    ⟨.query ⟨0⟩ "SELECT SLEEP(60)", none⟩]
  outcome := .waiting (appLinked "u" 0 true)

/-- The settings name another user, and the connection follows them. -/
def turnedAfterDrop : Performed where
  task := .retarget
  view := ⟨2, appStore "z" 1⟩
  events := [⟨.changeUser ⟨0⟩ (some "z") (some "p") (some "app"),
    some ⟨.ok (), ⟨3, appStore "z" 1⟩⟩⟩]
  outcome := .finished (appLinked "z" 1 false) (.ok (), ⟨3, appStore "z" 1⟩)

/-- The link of a dropped statement is turned to another user, and the connection is as good as
new. -/
theorem dropped_link_turned :
    Run (ofStore (appStore "u" 0)) ([] ++ droppedQuery :: [turnedAfterDrop])
      (appLinked "z" 1 false) ∧
    ∃ quiet p rest, [turnedAfterDrop] = quiet ++ p :: rest ∧ ¬ Uses (eventsOf quiet) ⟨0⟩ ∧
      p.task = .retarget ∧ OnlyTurns p.events ⟨0⟩ := by
  have run : Run (ofStore (appStore "u" 0)) ([] ++ droppedQuery :: [turnedAfterDrop])
      (appLinked "z" 1 false) :=
    .cons (by decide +kernel) (.cons (by decide +kernel) (.nil _))
  refine ⟨run, first_use_after_abandonment run (List.nodup_singleton _)
    (List.mem_cons_of_mem _ (List.mem_singleton.mpr rfl)) rfl ?_⟩
  exact ⟨_, List.mem_singleton.mpr rfl, rfl⟩

end Connection

end TypedSql
