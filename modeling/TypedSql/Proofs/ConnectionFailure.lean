/-
Failures of links.

A link that fails for good is given up at once, and the next operation that needs a link tries to
open another one. After any other failure the connection goes on with the link that it holds.

* `Task.Going.failsOn` — a request that fails on a link is the last of its operation, which reports
  how it failed;
* `Task.Going.linkFailed` — an operation that reports a failure of a link leaves the link at rest,
  or has given it up;
* `Run.replaced`, `Run.kept` — what the operations after that ask;
* `link_after_failure` — all of this, for any operation of any run.
-/
import TypedSql.Proofs.ConnectionTarget

namespace TypedSql

namespace ConnectionError

/-- What a link said, where its use has failed. -/
def cause? : ConnectionError → Option LinkError
  | fatal e | statement e => some e
  | invalidConnectionString _ | opening _ | missingParameter _ | cancelled => none

theorem cause?_classify (e : LinkError) : (classify e).cause? = some e := by
  rw [classify]
  split <;> rfl

theorem cause?_of_isOfOpening {e : ConnectionError} (h : e.isOfOpening = true) :
    e.cause? = none := by
  cases e <;> first | rfl | cases h

end ConnectionError

namespace Connection

open Exchange (Made Reach resultOf)

/-! ### Requests that fail -/

/-- A request that puts a link to use is answered with a failure. -/
structure FailsOn (event : Event) (link : Link) (cause : LinkError) : Prop where
  used : event.question.use? = some link
  said : ∃ answer, event.answer = some answer ∧ answer.reply = .error cause

section Failing

variable {view : View} {c : Connection} {events first rest : List Event} {event : Event}
  {q : Request} {link : Link} {cause : LinkError}

theorem not_failsOn_unanswered : ¬ FailsOn ⟨q, none⟩ link cause := by
  rintro ⟨-, _, ⟨⟩, -⟩

theorem FailsOn.reply {answer : Answer q} (fails : FailsOn ⟨q, some answer⟩ link cause) :
    answer.reply = .error cause := by
  obtain ⟨-, _, ⟨⟩, said⟩ := fails
  exact said

theorem Retargeting.failsOn {o : Reach Connection Unit} (h : Retargeting view c events o)
    (mem : event ∈ events) (fails : FailsOn event link cause) :
    events = [event] ∧ ∃ c' after, o = .finished c' (.error (.classify cause), after) := by
  cases h with
  | unchanged | idle | refused => cases mem
  | turning =>
    obtain rfl := List.mem_singleton.mp mem
    exact absurd fails not_failsOn_unanswered
  | turned moves near good =>
    obtain rfl := List.mem_singleton.mp mem
    cases good.symm.trans fails.reply
  | failed moves near bad =>
    obtain rfl := List.mem_singleton.mp mem
    obtain rfl := Except.error.inj (bad.symm.trans fails.reply)
    exact ⟨rfl, _, _, rfl⟩
  | leaving | left =>
    obtain rfl := List.mem_singleton.mp mem
    cases fails.used

theorem Opening.not_failsOn {o : Reach Connection Link} (h : Opening view c events o)
    (mem : event ∈ events) : ¬ FailsOn event link cause := by
  intro fails
  cases h with
  | standing | refused => cases mem
  | opening | opened | failed =>
    obtain rfl := List.mem_singleton.mp mem
    cases fails.used

theorem Readying.failsOn {o : Reach Connection Link} (h : Readying view c events o)
    (mem : event ∈ events) (fails : FailsOn event link cause) :
    events = [event] ∧ ∃ c' after, o = .finished c' (.error (.classify cause), after) := by
  cases h with
  | turning follows | held follows =>
    obtain ⟨-, _, _, heq⟩ := follows.failsOn mem fails
    cases heq
  | refused follows =>
    obtain ⟨hevents, _, _, heq⟩ := follows.failsOn mem fails
    cases heq
    exact ⟨hevents, _, _, rfl⟩
  | opening follows lacks opens | failed follows lacks opens | opened follows lacks opens =>
    obtain mem | mem := List.mem_append.mp mem
    · obtain ⟨-, _, _, heq⟩ := follows.failsOn mem fails
      cases heq
    · exact absurd fails (opens.not_failsOn mem)

/-- Nothing has failed on the way to a connection that is ready. -/
theorem Readying.not_failsOn {c' : Connection} {other : Link} {after : View}
    (h : Readying view c events (.finished c' (.ok other, after))) (mem : event ∈ events) :
    ¬ FailsOn event link cause := by
  intro fails
  obtain ⟨-, _, _, heq⟩ := h.failsOn mem fails
  cases heq

theorem Connecting.failsOn {o : Reach Connection Unit} (h : Connecting view c events o)
    (mem : event ∈ events) (fails : FailsOn event link cause) :
    events = [event] ∧ ∃ c' after, o = .finished c' (.error (.classify cause), after) := by
  cases h with
  | waiting readies =>
    obtain ⟨-, _, _, heq⟩ := readies.failsOn mem fails
    cases heq
  | refused readies =>
    obtain ⟨hevents, _, _, heq⟩ := readies.failsOn mem fails
    cases heq
    exact ⟨hevents, _, _, rfl⟩
  | connected readies => exact absurd fails (readies.not_failsOn mem)

theorem Closing.not_failsOn {o : Reach Connection Unit} (h : Closing view c events o)
    (mem : event ∈ events) : ¬ FailsOn event link cause := by
  intro fails
  cases h with
  | idle => cases mem
  | leaving | left | failed =>
    obtain rfl := List.mem_singleton.mp mem
    cases fails.used

theorem Sending.failsOn {r : Link → Request} {o : Reach Connection Unit}
    (h : Sending r view c events o) (split : events = first ++ event :: rest)
    (fails : FailsOn event link cause) :
    rest = [] ∧ ∃ c' after, o = .finished c' (.error (.classify cause), after) := by
  have mem : event ∈ events := by simp [split]
  have last {before : List Event} {c' : Connection} {other : Link} {after : View} {sent : Event}
      (readies : Readying view c before (.finished c' (.ok other, after)))
      (heq : before ++ [sent] = first ++ event :: rest) : sent = event ∧ rest = [] :=
    (append_singleton_eq_append_cons heq fun he => readies.not_failsOn he fails).2
  cases h with
  | waiting readies =>
    obtain ⟨-, _, _, heq⟩ := readies.failsOn mem fails
    cases heq
  | refused readies =>
    obtain ⟨rfl, _, _, heq⟩ := readies.failsOn mem fails
    cases heq
    exact ⟨(append_singleton_eq_append_cons split (List.not_mem_nil)).2.2, _, _, rfl⟩
  | sent readies =>
    obtain ⟨rfl, -⟩ := last readies split
    exact absurd fails not_failsOn_unanswered
  | answered readies good =>
    obtain ⟨rfl, -⟩ := last readies split
    cases good.symm.trans fails.reply
  | failed readies bad =>
    obtain ⟨rfl, hrest⟩ := last readies split
    obtain rfl := Except.error.inj (bad.symm.trans fails.reply)
    exact ⟨hrest, _, _, rfl⟩

/-- A request that fails on a link is the last of its operation, which reports how it failed. -/
theorem Task.Going.failsOn {task : Task} {o : Reach Connection Unit}
    (h : Going view c task events o) (split : events = first ++ event :: rest)
    (fails : FailsOn event link cause) :
    rest = [] ∧ ∃ c' after, o = .finished c' (.error (.classify cause), after) := by
  have mem : event ∈ events := by simp [split]
  -- where no statement is sent, the request that fails is the only one
  have only (h : events = [event] ∧ ∃ c' after, o = .finished c' (.error (.classify cause), after)) :
      rest = [] ∧ ∃ c' after, o = .finished c' (.error (.classify cause), after) := by
    obtain ⟨rfl, finished⟩ := h
    exact ⟨(append_singleton_eq_append_cons split List.not_mem_nil).2.2, finished⟩
  cases h with
  | connect goes => exact only (goes.failsOn mem fails)
  | close goes => exact absurd fails (goes.not_failsOn mem)
  | retarget goes => exact only (goes.failsOn mem fails)
  | unbound => cases mem
  | send sends goes => exact goes.failsOn split fails

end Failing

/-! ### A link at rest -/

/-- A connection holds a link that no operation was abandoned on, and has seen some settings. -/
structure Rests (link : Link) (version : Nat) (c : Connection) : Prop where
  held : c.link = some link
  unmarked : c.inFlight = false
  seen : c.subscription.seen = version

section Resting

variable {view : View} {c c' : Connection} {events : List Event} {link : Link} {version : Nat}

theorem Retargeting.of_seen {o : Reach Connection Unit} (h : Retargeting view c events o)
    (seen : c.subscription.seen = view.store.version) :
    events = [] ∧ o = .finished c (.ok (), view) := by
  have same : view.store.hasChanged c.subscription = false := by simp [Store.hasChanged, seen]
  cases h with
  | unchanged => exact ⟨rfl, rfl⟩
  | idle changed | refused changed => cases same.symm.trans changed
  | turning moves | turned moves | failed moves | leaving moves | left moves =>
    cases same.symm.trans moves.changed

/-- Without a change of the settings, a link at rest is ready as it is. -/
theorem Rests.readying {o : Reach Connection Link} (rests : Rests link view.store.version c)
    (h : Readying view c events o) :
    events = [] ∧ o = .finished { c with inFlight := true } (.ok link, view) := by
  -- nothing was abandoned, so that the link survives the start
  have same : c.recover = c := recover_of_not_inFlight rests.unmarked
  have followed {o : Reach Connection Unit} {first : List Event}
      (follows : Retargeting view c.recover first o) :
      first = [] ∧ o = .finished c (.ok (), view) := by
    rw [same] at follows
    exact follows.of_seen rests.seen
  cases h with
  | turning follows | refused follows => cases (followed follows).2
  | held follows holds =>
    obtain ⟨rfl, heq⟩ := followed follows
    cases heq
    obtain rfl := Option.some.inj (rests.held.symm.trans holds)
    exact ⟨rfl, rfl⟩
  | opening follows lacks | failed follows lacks | opened follows lacks =>
    obtain ⟨-, heq⟩ := followed follows
    cases heq
    cases rests.held.symm.trans lacks

/-- The link stays at rest as long as no statement is run and the connection is not closed. -/
theorem Rests.going {task : Task} {o : Reach Connection Unit}
    (rests : Rests link view.store.version c) (h : task.Going view c events o)
    (other : task ≠ .close) (silent : ∀ r, task.request? ≠ some (.ok r)) :
    Rests link view.store.version o.left := by
  cases h with
  | connect goes =>
    cases goes with
    | waiting readies | refused readies => cases (rests.readying readies).2
    | connected readies =>
      obtain ⟨-, heq⟩ := rests.readying readies
      cases heq
      exact ⟨rests.held, rfl, rests.seen⟩
  | close => exact absurd rfl other
  | retarget goes =>
    obtain ⟨-, rfl⟩ := goes.of_seen rests.seen
    exact rests
  | unbound => exact rests
  | send sends => exact absurd sends (silent _)

theorem Task.Going.sending {task : Task} {r : Link → Request} {o : Reach Connection Unit}
    (h : Going view c task events o) (own : task.request? = some (.ok r)) :
    Sending r view c events o := by
  cases h with
  | connect | close | retarget => cases own
  | unbound lacks => cases lacks.symm.trans own
  | send sends goes =>
    obtain rfl := Except.ok.inj (Option.some.inj (sends.symm.trans own))
    exact goes

/-- A statement is sent on a link at rest, and nothing else is asked. -/
theorem Rests.sending {r : Link → Request} {o : Reach Connection Unit}
    (rests : Rests link view.store.version c) (h : Sending r view c events o) :
    ∃ answer, events = [⟨r link, answer⟩] := by
  cases h with
  | waiting readies | refused readies => cases (rests.readying readies).2
  | sent readies | answered readies | failed readies =>
    obtain ⟨rfl, heq⟩ := rests.readying readies
    cases heq
    exact ⟨_, rfl⟩

theorem Run.rests {history : List Performed} (run : Run c history c')
    (rests : Rests link version c)
    (silent : ∀ p ∈ history, p.task ≠ .close ∧ ∀ r, p.task.request? ≠ some (.ok r))
    (unchanged : ∀ p ∈ history, p.view.store.version = version) : Rests link version c' := by
  induction run with
  | nil => exact rests
  | @cons c c' p history made behind ih =>
    obtain ⟨silent_p, silent⟩ := List.forall_mem_cons.mp silent
    obtain ⟨rfl, unchanged⟩ := List.forall_mem_cons.mp unchanged
    exact ih (rests.going (Task.made made) silent_p.1 silent_p.2) silent unchanged

end Resting

/-! ### What a failure leaves -/

/-- How a connection is left with a failure of a link: the link was put to use and failed, and but
for that it would be at rest. -/
inductive LinkFailed (view : View) (events : List Event) : Connection → ConnectionError → Prop
  | intro {c : Connection} {link : Link} {cause : LinkError} {event : Event}
      (mem : event ∈ events) (fails : FailsOn event link cause)
      (rests : Rests link view.store.version c) :
      LinkFailed view events (c.failed cause) (.classify cause)

section Leaving

variable {past : List Event} {view after : View} {c c' : Connection} {events : List Event}
  {e : ConnectionError} {cause : LinkError}

theorem Retargeting.linkFailed (h : Retargeting view c events (.finished c' (.error e, after)))
    (said : e.cause? = some cause) : LinkFailed view events c' e := by
  cases h with
  | refused changed held bad =>
    cases (ConnectionError.cause?_of_isOfOpening (targetOf_isOfOpening bad)).symm.trans said
  | failed moves near bad =>
    exact .intro (List.mem_singleton.mpr rfl) ⟨rfl, _, rfl, bad⟩ ⟨moves.held, rfl, rfl⟩

/-- An opening fails, or a failure of an earlier one stands. -/
theorem Opening.isOfOpening (h : Opening view c events (.finished c' (.error e, after)))
    (s : Sound past c) : e.isOfOpening = true := by
  cases h with
  | standing failure =>
    rw [Cooldown.standing?] at failure
    split at failure
    · rename_i time e' heq
      split_ifs at failure
      obtain rfl := Option.some.inj failure
      exact s.standing time e' heq
    · cases failure
  | refused free bad => exact targetOf_isOfOpening bad
  | failed => rfl

theorem Readying.linkFailed (h : Readying view c events (.finished c' (.error e, after)))
    (s : Sound past c) (said : e.cause? = some cause) : LinkFailed view events c' e := by
  cases h with
  | refused follows => exact follows.linkFailed said
  | failed follows lacks opens =>
    have ofOpening : e.isOfOpening = true := opens.isOfOpening (follows.sound s.recover)
    cases (ConnectionError.cause?_of_isOfOpening ofOpening).symm.trans said

/-- A statement that lacks a value has not reached a link. -/
theorem Task.cause?_of_request? {task : Task} (h : task.request? = some (.error e)) :
    e.cause? = none := by
  cases task with
  | connect | close | retarget | queryRows | execute => cases h
  | queryBound statement bindings | executeBound statement bindings =>
    rw [request?, bound] at h
    cases hb : statement.bind bindings with
    | ok b => rw [hb] at h; cases h
    | error name => rw [hb] at h; cases h; rfl

/-- An operation that reports a failure of a link leaves the link at rest, or has given it up. -/
theorem Task.Going.linkFailed {task : Task}
    (h : Going view c task events (.finished c' (.error e, after))) (s : Sound past c)
    (other : task ≠ .close) (said : e.cause? = some cause) : LinkFailed view events c' e := by
  cases h with
  | connect goes => cases goes with | refused readies => exact readies.linkFailed s said
  | close => exact absurd rfl other
  | retarget goes => exact goes.linkFailed said
  | unbound lacks => cases (cause?_of_request? lacks).symm.trans said
  | send sends goes =>
    cases goes with
    | refused readies => exact readies.linkFailed s said
    | @failed first c'' link later readies answer cause bad =>
      have used := Request.use?_of_statement? (statement?_of_request? sends link)
      exact .intro (List.mem_append_right _ (List.mem_singleton.mpr rfl)) ⟨used, _, rfl, bad⟩
        ⟨readies.holds.1, rfl, readies.seen⟩

end Leaving

/-! ### Opening anew -/

/-- An attempt to open a link, with the result. It is made unless the cool-down has an earlier
failure stand. -/
inductive Attempts (c : Connection) (view : View) : List Event → Except ConnectionError Link → Prop
  | standing {e : ConnectionError} (failure : c.opener.standing? view.now = some e) :
      Attempts c view [] (.error e)
  | refused {e : ConnectionError} (free : c.opener.standing? view.now = none)
      (bad : targetOf view.store.current = .error e) : Attempts c view [] (.error e)
  | opening {target : Target} (free : c.opener.standing? view.now = none)
      (named : targetOf view.store.current = .ok target) :
      Attempts c view [⟨.openLink target, none⟩] (.error .cancelled)
  | opened {target : Target} {answer : Answer (.openLink target)} {link : Link}
      (free : c.opener.standing? view.now = none)
      (named : targetOf view.store.current = .ok target) (good : answer.reply = .ok link) :
      Attempts c view [⟨_, some answer⟩] (.ok link)
  | failed {target : Target} {answer : Answer (.openLink target)} {e : LinkError}
      (free : c.opener.standing? view.now = none)
      (named : targetOf view.store.current = .ok target) (bad : answer.reply = .error e) :
      Attempts c view [⟨_, some answer⟩] (.error (.opening e))

/-- The operation needs a link. -/
def Task.NeedsLink (task : Task) : Prop :=
  task = .connect ∨ ∃ r, task.request? = some (.ok r)

/-- An operation that needs a link begins with an attempt to open one. If this fails, nothing more
is asked, and if it succeeds, a statement is sent on the link that was opened. -/
inductive OpensAnew (c : Connection) (view : View) :
    Task → List Event → Except ConnectionError Unit → Prop
  | halted {task : Task} {events : List Event} {e : ConnectionError}
      (attempt : Attempts c view events (.error e)) : OpensAnew c view task events (.error e)
  | connected {events : List Event} {link : Link} (attempt : Attempts c view events (.ok link)) :
      OpensAnew c view .connect events (.ok ())
  | sent {task : Task} {r : Link → Request} {events : List Event} {link : Link}
      (attempt : Attempts c view events (.ok link)) (own : task.request? = some (.ok r))
      (answer : Option (Answer (r link))) (result : Except ConnectionError Unit) :
      OpensAnew c view task (events ++ [⟨r link, answer⟩]) result

section OpeningAnew

variable {view : View} {c : Connection} {events : List Event}

theorem Retargeting.of_lacking {o : Reach Connection Unit} (h : Retargeting view c events o)
    (lacks : c.link = none) :
    events = [] ∧
      ∃ c', o = .finished c' (.ok (), view) ∧ c'.link = none ∧ c'.opener = c.opener := by
  cases h with
  | unchanged | idle => exact ⟨rfl, _, rfl, lacks, rfl⟩
  | refused changed held => cases held.symm.trans lacks
  | turning moves | turned moves | failed moves | leaving moves | left moves =>
    cases moves.held.symm.trans lacks

theorem opener_recover (c : Connection) : c.recover.opener = c.opener := by
  rw [Connection.recover]
  split
  · dsimp only
    split <;> rfl
  · rfl

theorem Opening.attempts {c' : Connection} {o : Reach Connection Link}
    (h : Opening view c' events o) (same : c'.opener = c.opener) :
    Attempts c view events (resultOf o) := by
  cases h with
  | standing failure => exact .standing (same ▸ failure)
  | refused free bad => exact .refused (same ▸ free) bad
  | opening free named => exact .opening (same ▸ free) named
  | opened free named good => exact .opened (same ▸ free) named good
  | failed free named bad => exact .failed (same ▸ free) named bad

theorem Readying.attempts {o : Reach Connection Link} (h : Readying view c events o)
    (lacks : c.link = none) : Attempts c view events (resultOf o) := by
  -- without a link, the settings are followed by taking note of them
  have followed {o : Reach Connection Unit} {first : List Event}
      (follows : Retargeting view c.recover first o) :
      first = [] ∧
        ∃ c', o = .finished c' (.ok (), view) ∧ c'.link = none ∧ c'.opener = c.opener := by
    have lacking : c.recover.link = none :=
      Option.eq_none_iff_forall_ne_some.mpr fun link held => by
        cases (link_recover held).2.symm.trans lacks
    rw [← opener_recover c]
    exact follows.of_lacking lacking
  cases h with
  | turning follows | refused follows =>
    obtain ⟨-, _, heq, -⟩ := followed follows
    cases heq
  | held follows holds =>
    obtain ⟨-, _, heq, lacking, -⟩ := followed follows
    cases heq
    cases holds.symm.trans lacking
  | opening follows lacks opens | failed follows lacks opens | opened follows lacks opens =>
    obtain ⟨rfl, _, heq, -, same⟩ := followed follows
    cases heq
    exact opens.attempts same

theorem Task.Going.opensAnew {task : Task} {o : Reach Connection Unit}
    (h : Going view c task events o) (lacks : c.link = none) (needs : task.NeedsLink) :
    OpensAnew c view task events (resultOf o) := by
  cases h with
  | connect goes =>
    cases goes with
    | waiting readies | refused readies => exact .halted (readies.attempts lacks)
    | connected readies => exact .connected (readies.attempts lacks)
  | close => obtain heq | ⟨_, heq⟩ := needs <;> cases heq
  | retarget => obtain heq | ⟨_, heq⟩ := needs <;> cases heq
  | unbound unsent =>
    obtain rfl | ⟨_, heq⟩ := needs
    · cases unsent
    · cases unsent.symm.trans heq
  | send sends goes =>
    cases goes with
    | waiting readies | refused readies => exact .halted (readies.attempts lacks)
    | sent readies | answered readies | failed readies =>
      exact .sent (readies.attempts lacks) sends _ _

end OpeningAnew

/-! ### Runs -/

/-- What the caller hears of an operation. -/
def Performed.result (p : Performed) : Except ConnectionError Unit :=
  resultOf p.outcome

/-- The link is given up: nothing is sent on it any more, and until another one is open, each
operation that needs a link tries to open one. -/
structure Replaced (c : Connection) (link : Link) (after : List Performed) : Prop where
  broken : c.phase = .broken
  forsaken : ∀ event ∈ eventsOf after, event.question.link? ≠ some link
  opens : ∀ quiet q rest, after = quiet ++ q :: rest → openedBy (eventsOf quiet) = [] →
    q.task.NeedsLink → ∃ c', Run c quiet c' ∧ OpensAnew c' q.view q.task q.events q.result

/-- The link is kept: if the settings do not change and the connection is not closed, then the next
statement is sent on it, and its operation asks nothing else. -/
structure Kept (c : Connection) (link : Link) (version : Nat) (after : List Performed) : Prop where
  opened : c.phase = .opened
  next : ∀ quiet q rest r, after = quiet ++ q :: rest →
    (∀ p ∈ quiet, p.task ≠ .close ∧ ∀ r, p.task.request? ≠ some (.ok r)) →
    (∀ p ∈ quiet ++ [q], p.view.store.version = version) → q.task.request? = some (.ok r) →
    ∃ answer, q.events = [⟨r link, answer⟩]

section Runs

variable {c c' : Connection} {p : Performed} {before after : List Performed} {link : Link}

/-- The links that a run talks to are those that it has opened. -/
theorem Run.opened_of_asked {store : Store} {history : List Performed} {event : Event}
    (run : Run (ofStore store) history c) (mem : event ∈ eventsOf history)
    (on : event.question.link? = some link) : link ∈ openedBy (eventsOf history) := by
  have stays : Stays (· ∈ openedBy (eventsOf history)) (eventsOf history) c :=
    run.stays (by rintro _ ⟨⟩) fun _ h => h
  exact stays.asked event mem link on

/-- A link that an operation talks to was opened before, and so it is not opened again. -/
theorem Run.not_reopened {store : Store} {event : Event}
    (run : Run (ofStore store) (before ++ p :: after) c)
    (distinct : (openedBy (eventsOf (before ++ p :: after))).Nodup) (mem : event ∈ p.events)
    (on : event.question.link? = some link) : link ∉ openedBy (eventsOf after) := by
  rw [List.append_cons] at run distinct
  obtain ⟨middle, hbefore, -⟩ := run_append.mp run
  have known : link ∈ openedBy (eventsOf (before ++ [p])) :=
    hbefore.opened_of_asked (by simp [mem]) on
  rw [eventsOf_append, openedBy_append] at distinct
  exact fun h => List.disjoint_of_nodup_append distinct known h

theorem Run.replaced (run : Run c after c') (broken : c.phase = .broken) (lacks : c.link = none)
    (fresh : link ∉ openedBy (eventsOf after)) : Replaced c link after where
  broken := broken
  forsaken event mem on := by
    have stays : Stays (· ≠ link) (eventsOf after) c' :=
      run.stays (by simp [lacks]) fun _ h heq => fresh (heq ▸ h)
    exact stays.asked event mem link on rfl
  opens := by
    rintro quiet q rest rfl unopened needs
    obtain ⟨middle, hquiet, hrest⟩ := run_append.mp run
    obtain ⟨made, -⟩ := run_cons.mp hrest
    -- no link was there, and none was opened
    have stays : Stays (fun _ => False) (eventsOf quiet) middle :=
      hquiet.stays (by simp [lacks]) (by simp [unopened])
    have lacking : middle.link = none := Option.eq_none_iff_forall_ne_some.mpr stays.held
    exact ⟨middle, hquiet, (Task.made made).opensAnew lacking needs⟩

theorem Run.kept {version : Nat} (run : Run c after c') (opened : c.phase = .opened)
    (rests : Rests link version c) : Kept c link version after where
  opened := opened
  next := by
    rintro quiet q rest r rfl silent unchanged own
    obtain ⟨middle, hquiet, hrest⟩ := run_append.mp run
    obtain ⟨made, -⟩ := run_cons.mp hrest
    obtain ⟨unchanged, same⟩ := List.forall_mem_append.mp unchanged
    obtain rfl := same q (List.mem_singleton.mpr rfl)
    have resting : Rests link q.view.store.version middle := hquiet.rests rests silent unchanged
    exact resting.sending ((Task.made made).sending own)

theorem finished_of_cause? {e : ConnectionError} {cause : LinkError}
    (reported : p.result = .error e) (said : e.cause? = some cause) :
    ∃ c' later, p.outcome = .finished c' (.error e, later) := by
  rw [Performed.result] at reported
  cases hout : p.outcome with
  | waiting c' =>
    rw [hout] at reported
    cases reported
    cases said
  | finished c' result =>
    obtain ⟨r, later⟩ := result
    rw [hout] at reported
    obtain rfl : r = .error e := reported
    exact ⟨c', later, rfl⟩

/-- A statement is sent once, as the last request of its operation. What fails on a link ends the
operation, which reports just that. If the failure is fatal, then the link is given up and will be
replaced, and otherwise it is kept. -/
theorem link_after_failure {store : Store} (run : Run (ofStore store) (before ++ p :: after) c)
    (distinct : (openedBy (eventsOf (before ++ p :: after))).Nodup) :
    (∀ first event rest link, p.events = first ++ event :: rest →
      event.question.statement? = some link →
        rest = [] ∧ ∃ r, p.task.request? = some (.ok r) ∧ event.question = r link) ∧
    (∀ first event rest link cause, p.events = first ++ event :: rest →
      FailsOn event link cause → rest = [] ∧ p.result = .error (.classify cause)) ∧
    ∀ e cause, p.task ≠ .close → p.result = .error e → e.cause? = some cause →
      e = .classify cause ∧ ∃ link, (∃ event ∈ p.events, FailsOn event link cause) ∧
        (e.isFatal = true → Replaced p.outcome.left link after) ∧
        (e.isFatal = false → Kept p.outcome.left link p.view.store.version after) := by
  obtain ⟨middle, hbefore, hrun⟩ := run_append.mp run
  obtain ⟨made, hafter⟩ := run_cons.mp hrun
  have goes : p.task.Going p.view middle p.events p.outcome := Task.made made
  have s : Sound (eventsOf before) middle := hbefore.sound (sound_ofStore store)
  refine ⟨fun first event rest link split states => ?_,
    fun first event rest link cause split fails => ?_, fun e cause other reported said => ?_⟩
  · obtain ⟨hrest, own, -⟩ := goes.statement split states
    exact ⟨hrest, own⟩
  · obtain ⟨hrest, c', later, hout⟩ := goes.failsOn split fails
    exact ⟨hrest, by rw [Performed.result, hout]; rfl⟩
  · obtain ⟨c', later, hout⟩ := finished_of_cause? reported said
    have left : p.outcome.left = c' := by rw [hout]; rfl
    have sound : Sound (eventsOf before ++ p.events) c' := left ▸ goes.sound s
    rw [left] at hafter ⊢
    rw [hout] at goes
    obtain @⟨d, link, cause', event, mem, fails, rests⟩ := goes.linkFailed s other said
    obtain rfl : cause = cause' :=
      Option.some.inj (said.symm.trans (ConnectionError.cause?_classify cause'))
    refine ⟨rfl, link, ⟨event, mem, fails⟩, fun fatal => ?_, fun mild => ?_⟩
    · rw [ConnectionError.isFatal_classify] at fatal
      rw [Connection.failed, if_pos fatal] at hafter ⊢
      exact hafter.replaced rfl rfl
        (run.not_reopened distinct mem (Request.link?_of_use? fails.used))
    · rw [ConnectionError.isFatal_classify] at mild
      have kept : d.failed cause = d := by rw [Connection.failed, if_neg (by simp [mild])]
      rw [kept] at hafter sound ⊢
      exact hafter.kept (sound.phase_of_held rests.held) rests

end Runs

/-! ### A statement that is refused and a link that breaks -/

/-- A statement that the server refuses. -/
def refusedQuery : Performed where
  task := .queryRows "SELECT * FROM nothing"
  view := ⟨2, appStore "u" 0⟩
  events := [⟨.query ⟨0⟩ "SELECT * FROM nothing",
    some ⟨.error (.server 1146 "42S02" "Table 'app.nothing' doesn't exist"), ⟨3, appStore "u" 0⟩⟩⟩]
  outcome := .finished (appLinked "u" 0 false)
    (.error (.statement (.server 1146 "42S02" "Table 'app.nothing' doesn't exist")),
      ⟨3, appStore "u" 0⟩)

/-- The link breaks with the next one. -/
def brokenQuery : Performed where
  task := .queryRows "SELECT 1"
  view := ⟨4, appStore "u" 0⟩
  events := [⟨.query ⟨0⟩ "SELECT 1", some ⟨.error .closed, ⟨5, appStore "u" 0⟩⟩⟩]
  outcome := .finished (appLinked "u" 0 false).discard
    (.error (.fatal .closed), ⟨5, appStore "u" 0⟩)

/-- Another link is opened for the one after it. -/
def freshQuery : Performed where
  task := .queryRows "SELECT 1"
  view := ⟨6, appStore "u" 0⟩
  events := [⟨.openLink (appTarget "u"), some ⟨.ok (⟨1⟩ : Link), ⟨7, appStore "u" 0⟩⟩⟩,
    ⟨.query ⟨1⟩ "SELECT 1", some ⟨.ok ([] : List ServerRow), ⟨8, appStore "u" 0⟩⟩⟩]
  outcome := .finished { appLinked "u" 0 false with link := some ⟨1⟩ }
    (.ok (), ⟨8, appStore "u" 0⟩)

/-- The link on which a statement was refused is kept, and the link that broke is replaced. -/
theorem link_refusedThenBroken :
    Run (ofStore (appStore "u" 0)) [appConnect, refusedQuery, brokenQuery, freshQuery]
      freshQuery.outcome.left ∧
    Kept refusedQuery.outcome.left ⟨0⟩ 0 [brokenQuery, freshQuery] ∧
    Replaced brokenQuery.outcome.left ⟨0⟩ [freshQuery] := by
  have run : Run (ofStore (appStore "u" 0)) [appConnect, refusedQuery, brokenQuery, freshQuery]
      freshQuery.outcome.left :=
    .cons (by decide +kernel) (.cons (by decide +kernel) (.cons (by decide +kernel)
      (.cons (by decide +kernel) (.nil _))))
  have distinct :
      (openedBy (eventsOf [appConnect, refusedQuery, brokenQuery, freshQuery])).Nodup := by
    decide
  have refused : Run (ofStore (appStore "u" 0))
      ([appConnect] ++ refusedQuery :: [brokenQuery, freshQuery]) freshQuery.outcome.left := run
  have broken : Run (ofStore (appStore "u" 0))
      ([appConnect, refusedQuery] ++ brokenQuery :: [freshQuery]) freshQuery.outcome.left := run
  refine ⟨run, ?_, ?_⟩
  · obtain ⟨-, link, ⟨event, mem, fails⟩, -, kept⟩ :=
      (link_after_failure refused distinct).2.2 _ _ (by nofun) rfl rfl
    obtain rfl := List.mem_singleton.mp mem
    obtain rfl := Option.some.inj fails.used
    exact kept rfl
  · obtain ⟨-, link, ⟨event, mem, fails⟩, replaced, -⟩ :=
      (link_after_failure broken distinct).2.2 _ _ (by nofun) rfl rfl
    obtain rfl := List.mem_singleton.mp mem
    obtain rfl := Option.some.inj fails.used
    exact replaced rfl

end Connection

end TypedSql
