/-
Where a connection stands between operations.

What a connection holds is told by what it asked and was answered so far (`Sound`): its phase says
whether it holds a link, a held link is the one that was opened last, and it is held together with
the target that it was opened with or turned to last (`Reaches`). The phase `connecting` alone can
be left behind by an operation that was given up.

* `Task.Going.sound`, `Run.sound` — an operation, and so a run, keeps a connection sound;
* `opened_iff_held` — a connection is open exactly when it holds a link with its target;
* `connecting_iff_abandoned` — when a connection says that it is connecting although it is not.
-/
import TypedSql.Proofs.ConnectionRun

namespace TypedSql

namespace ConnectionError

/-- Whether a failure is one of opening a link, and so may stand for a while. -/
def isOfOpening : ConnectionError → Bool
  | invalidConnectionString _ | opening _ => true
  | fatal _ | statement _ | missingParameter _ | cancelled => false

end ConnectionError

namespace Connection

open Exchange (Made Reach)

/-! ### What the answers say of a link -/

/-- The link whose target an answer fixed, by opening it or by turning it. -/
def fixed? : Event → Option Link
  | ⟨.openLink _, some ⟨.ok link, _⟩⟩ => some link
  | ⟨.changeUser link _ _ _, some ⟨.ok _, _⟩⟩ => some link
  | _ => none

/-- A link was opened with a target, or turned to it from another one at the same endpoint, and was
not turned again since. -/
inductive Reaches (link : Link) : Target → List Event → Prop
  | opened (past : List Event) (target : Target) (after : View) :
      Reaches link target (past ++ [⟨.openLink target, some ⟨.ok link, after⟩⟩])
  | turned {past : List Event} {current next : Target} (before : Reaches link current past)
      (near : current.sameEndpoint next = true) (after : View) :
      Reaches link next (past ++
        [⟨.changeUser link next.user next.password next.database, some ⟨.ok (), after⟩⟩])
  | kept {past : List Event} {target : Target} {event : Event} (before : Reaches link target past)
      (other : fixed? event ≠ some link) : Reaches link target (past ++ [event])

/-- What a connection holds agrees with its phase and with what it asked and was answered so far. -/
structure Sound (past : List Event) (c : Connection) : Prop where
  opened_iff : c.phase = .opened ↔ c.link.isSome = true
  targeted : c.target.isSome = c.link.isSome
  latest : ∀ link, c.link = some link → (openedBy past).getLast? = some link
  reached : ∀ link target, c.link = some link → c.target = some target → Reaches link target past
  standing : ∀ time e, c.opener.failure = some (time, e) → e.isOfOpening = true

section Soundness

variable {past : List Event} {view : View} {c : Connection} {events : List Event}

theorem Sound.of_lacking (link : c.link = none) (target : c.target = none)
    (phase : c.phase ≠ .opened)
    (standing : ∀ time e, c.opener.failure = some (time, e) → e.isOfOpening = true) :
    Sound past c where
  opened_iff := by simp [link, phase]
  targeted := by simp [link, target]
  latest := by simp [link]
  reached := by simp [link]
  standing := standing

theorem sound_ofStore (store : Store) : Sound [] (ofStore store) :=
  .of_lacking rfl rfl (by simp [ofStore]) (by rintro _ _ ⟨⟩)

theorem Sound.target_eq_none (s : Sound past c) (lacks : c.link = none) : c.target = none := by
  simpa [lacks] using s.targeted

theorem Sound.phase_of_held (s : Sound past c) {link : Link} (held : c.link = some link) :
    c.phase = .opened :=
  s.opened_iff.mpr (by simp [held])

theorem Sound.exists_target (s : Sound past c) {link : Link} (held : c.link = some link) :
    ∃ target, c.target = some target :=
  Option.isSome_iff_exists.mp (by rw [s.targeted, held]; rfl)

/-- A mark and what was seen of the settings have no part in it. -/
theorem Sound.marked (s : Sound past c) (inFlight : Bool) : Sound past { c with inFlight } :=
  ⟨s.opened_iff, s.targeted, s.latest, s.reached, s.standing⟩

theorem Sound.seeing (s : Sound past c) (view : View) : Sound past (c.seeing view) :=
  ⟨s.opened_iff, s.targeted, s.latest, s.reached, s.standing⟩

theorem Sound.discard (s : Sound past c) (later : List Event) : Sound later c.discard :=
  .of_lacking rfl rfl (by simp [Connection.discard]) s.standing

theorem Sound.failed (s : Sound past c) (e : LinkError) : Sound past (c.failed e) := by
  rw [Connection.failed]
  split
  · exact s.discard past
  · exact s

theorem Sound.recover (s : Sound past c) : Sound past c.recover := by
  rw [Connection.recover]
  split
  · dsimp only
    split
    · exact (s.marked false).discard past
    · exact s.marked false
  · exact s

/-- A request that opens and turns no link changes nothing. -/
theorem Sound.asking (s : Sound past c) {event : Event} (unopened : opened? event = none)
    (unfixed : fixed? event = none) : Sound (past ++ [event]) c where
  opened_iff := s.opened_iff
  targeted := s.targeted
  latest link held := by
    have same : openedBy (past ++ [event]) = openedBy past := by simp [openedBy, unopened]
    rw [same]
    exact s.latest link held
  reached link target held turned :=
    .kept (s.reached link target held turned) (by simp [unfixed])
  standing := s.standing

theorem targetOf_isOfOpening {settings : Settings} {e : ConnectionError}
    (h : targetOf settings = .error e) : e.isOfOpening = true := by
  rw [targetOf] at h
  split at h
  · cases h
  · obtain rfl := Except.error.inj h
    rfl

theorem Retargeting.sound {o : Reach Connection Unit} (h : Retargeting view c events o)
    (s : Sound past c) : Sound (past ++ events) o.left := by
  cases h with
  | unchanged => rwa [List.append_nil]
  | idle | refused => rw [List.append_nil]; exact s.seeing view
  | turning => exact ((s.seeing view).marked true).asking rfl rfl
  | @turned link current next moves near answer good =>
    obtain ⟨reply, after⟩ := answer
    obtain rfl : reply = .ok () := good
    refine ⟨s.opened_iff, ?_, fun other held => ?_, fun other target held turned => ?_, s.standing⟩
    · show true = c.link.isSome
      rw [moves.held]; rfl
    · rw [openedBy_append]
      simpa [openedBy, opened?] using s.latest other held
    · -- the link in hand is the one that was turned
      obtain rfl : link = other := Option.some.inj (moves.held.symm.trans held)
      obtain rfl : next = target := Option.some.inj turned
      exact .turned (s.reached link current moves.held moves.turned) near after
  | @failed link current next moves near answer e bad =>
    obtain ⟨reply, after⟩ := answer
    obtain rfl : reply = .error e := bad
    exact .failed (((s.seeing view).marked false).asking rfl rfl) e
  | leaving | left => exact (s.seeing view).discard _

theorem Opening.sound {o : Reach Connection Link} (h : Opening view c events o)
    (s : Sound past c) (lacks : c.link = none) : Sound (past ++ events) o.left := by
  -- an attempt that fails puts the phase back, which cannot be that of an open connection
  have closed : c.phase ≠ .opened := by simp [s.opened_iff, lacks]
  cases h with
  | standing => rwa [List.append_nil]
  | @refused e free bad =>
    refine .of_lacking lacks (s.target_eq_none lacks) closed ?_
    rintro _ _ ⟨⟩
    exact targetOf_isOfOpening bad
  | opening => exact .of_lacking lacks (s.target_eq_none lacks) (by simp [Outcome.left]) s.standing
  | @opened target answer link free named good =>
    obtain ⟨reply, after⟩ := answer
    obtain rfl : reply = .ok link := good
    refine ⟨by simp [Outcome.left], rfl, ?_, ?_, by rintro _ _ ⟨⟩⟩
    · rintro _ ⟨⟩
      simp [openedBy, opened?]
    · rintro _ _ ⟨⟩ ⟨⟩
      exact .opened past target after
  | failed =>
    refine .of_lacking lacks (s.target_eq_none lacks) closed ?_
    rintro _ _ ⟨⟩
    rfl

theorem Readying.sound {o : Reach Connection Link} (h : Readying view c events o)
    (s : Sound past c) : Sound (past ++ events) o.left := by
  cases h with
  | turning follows | refused follows => exact follows.sound s.recover
  | held follows => exact (follows.sound s.recover).marked true
  | opening follows lacks opens | failed follows lacks opens =>
    rw [← List.append_assoc]
    exact opens.sound (follows.sound s.recover) lacks
  | opened follows lacks opens =>
    rw [← List.append_assoc]
    exact (opens.sound (follows.sound s.recover) lacks).marked true

theorem Connecting.sound {o : Reach Connection Unit} (h : Connecting view c events o)
    (s : Sound past c) : Sound (past ++ events) o.left := by
  cases h with
  | waiting readies | refused readies => exact readies.sound s
  | connected readies => exact (readies.sound s).marked false

theorem opened?_eq_none {event : Event} {link : Link}
    (states : event.question.statement? = some link) : opened? event = none := by
  obtain ⟨q, answer⟩ := event
  cases q <;> first | rfl | cases states

theorem fixed?_eq_none {event : Event} {link : Link}
    (states : event.question.statement? = some link) : fixed? event = none := by
  obtain ⟨q, answer⟩ := event
  cases q <;> first | rfl | cases states

theorem Sending.sound {q : Link → Request} {o : Reach Connection Unit}
    (h : Sending q view c events o) (states : ∀ link, (q link).statement? = some link)
    (s : Sound past c) : Sound (past ++ events) o.left := by
  -- a statement opens no link and turns none, however it is answered
  have sent {first : List Event} {c' : Connection} {link : Link} {after : View}
      (readies : Readying view c first (.finished c' (.ok link, after)))
      (answer : Option (Answer (q link))) : Sound (past ++ (first ++ [⟨q link, answer⟩])) c' := by
    rw [← List.append_assoc]
    exact (readies.sound s).asking (opened?_eq_none (states link)) (fixed?_eq_none (states link))
  cases h with
  | waiting readies | refused readies => exact readies.sound s
  | sent readies => exact sent readies none
  | answered readies => exact (sent readies _).marked false
  | failed readies => exact ((sent readies _).marked false).failed _

theorem Closing.sound {o : Reach Connection Unit} (h : Closing view c events o)
    (s : Sound past c) : Sound (past ++ events) o.left := by
  cases h <;> exact .of_lacking rfl rfl (by simp [Outcome.left, Connection.closed]) s.standing

/-- An operation keeps a connection sound, however far it came. -/
theorem Task.Going.sound {task : Task} {o : Reach Connection Unit} (h : Going view c task events o)
    (s : Sound past c) : Sound (past ++ events) o.left := by
  cases h with
  | connect goes => exact goes.sound s
  | close goes => exact goes.sound s
  | retarget goes => exact goes.sound s
  | unbound => rwa [List.append_nil]
  | send sends goes => exact goes.sound (statement?_of_request? sends) s

theorem Run.sound {c' : Connection} {history : List Performed} (run : Run c history c')
    (s : Sound past c) : Sound (past ++ eventsOf history) c' := by
  induction run generalizing past with
  | nil c => exact (List.append_nil past).symm ▸ s
  | cons made behind ih =>
    rw [eventsOf_cons, ← List.append_assoc]
    exact ih ((Task.made made).sound s)

end Soundness

/-- Between operations a connection is open exactly when it holds a link, and holds a link exactly
when it holds a target. The link is the one that was opened last, so that no other is alive, and the
target is the one that the link was opened with or turned to. -/
theorem opened_iff_held {store : Store} {history : List Performed} {c : Connection}
    (run : Run (ofStore store) history c) :
    (c.phase = .opened ↔ ∃ link, c.link = some link) ∧
    ((∃ link, c.link = some link) ↔ ∃ target, c.target = some target) ∧
    ∀ link, c.link = some link → (openedBy (eventsOf history)).getLast? = some link ∧
      ∃ target, c.target = some target ∧ Reaches link target (eventsOf history) := by
  have s : Sound (eventsOf history) c := run.sound (sound_ofStore store)
  refine ⟨?_, ?_, fun link held => ⟨s.latest link held, ?_⟩⟩
  · rw [s.opened_iff, Option.isSome_iff_exists]
  · rw [← Option.isSome_iff_exists, ← Option.isSome_iff_exists, s.targeted]
  · obtain ⟨target, turned⟩ := s.exists_target held
    exact ⟨target, turned, s.reached link target held turned⟩

/-- A connection is opened ahead of its use. -/
def appConnect : Performed where
  task := .connect
  view := ⟨0, appStore "u" 0⟩
  events := [⟨.openLink (appTarget "u"), some ⟨.ok (⟨0⟩ : Link), ⟨1, appStore "u" 0⟩⟩⟩]
  outcome := .finished (appLinked "u" 0 false) (.ok (), ⟨1, appStore "u" 0⟩)

/-- A statement is run after the settings came to name another user. -/
def turnedQuery : Performed where
  task := .queryRows "SELECT 1"
  view := ⟨2, appStore "z" 1⟩
  events := [⟨.changeUser ⟨0⟩ (some "z") (some "p") (some "app"),
      some ⟨.ok (), ⟨3, appStore "z" 1⟩⟩⟩,
    ⟨.query ⟨0⟩ "SELECT 1", some ⟨.ok ([] : List ServerRow), ⟨4, appStore "z" 1⟩⟩⟩]
  outcome := .finished (appLinked "z" 1 false) (.ok (), ⟨4, appStore "z" 1⟩)

/-- The link that was opened first is held with the target that it was turned to. -/
theorem opened_afterTurn :
    Run (ofStore (appStore "u" 0)) [appConnect, turnedQuery] (appLinked "z" 1 false) ∧
    (appLinked "z" 1 false).phase = .opened ∧
    (openedBy (eventsOf [appConnect, turnedQuery])).getLast? = some ⟨0⟩ ∧
    ∃ target, (appLinked "z" 1 false).target = some target ∧
      Reaches ⟨0⟩ target (eventsOf [appConnect, turnedQuery]) := by
  have run : Run (ofStore (appStore "u" 0)) [appConnect, turnedQuery] (appLinked "z" 1 false) :=
    .cons (by decide +kernel) (.cons (by decide +kernel) (.nil _))
  obtain ⟨opened, -, latest⟩ := opened_iff_held run
  exact ⟨run, opened.mpr ⟨⟨0⟩, rfl⟩, latest ⟨0⟩ rfl⟩

/-! ### The phase of an opening -/

/-- An operation was given up while it waited for a link to be opened. -/
def AbandonedOpening (events : List Event) : Prop :=
  ∃ target, ⟨.openLink target, none⟩ ∈ events

/-- What requests make of the phase `connecting`: it is that of an opening that was given up, or
the one before if no link was opened. -/
def KeepsConnecting (c : Connection) (events : List Event) : Prop :=
  AbandonedOpening events ∨ c.phase = .connecting ∧ openedBy events = []

/-- Requests that open nothing. -/
def OpensNothing (events : List Event) : Prop :=
  ∀ event ∈ events, ∀ target, event.question ≠ .openLink target

section Phases

variable {past : List Event} {view : View} {c c' : Connection} {events first second : List Event}

theorem abandonedOpening_append :
    AbandonedOpening (first ++ second) ↔ AbandonedOpening first ∨ AbandonedOpening second := by
  simp [AbandonedOpening, exists_or]

theorem OpensNothing.not_abandonedOpening (h : OpensNothing events) :
    ¬ AbandonedOpening events := by
  rintro ⟨target, he⟩
  exact h _ he target rfl

theorem OpensNothing.openedBy_eq_nil (h : OpensNothing events) : openedBy events = [] := by
  refine List.filterMap_eq_nil_iff.mpr fun event he => ?_
  obtain ⟨q, answer⟩ := event
  cases q with
  | openLink target => exact absurd rfl (h _ he target)
  | query | execute | queryBound | executeBound | changeUser | disconnect => rfl

theorem opensNothing_statement {event : Event} {link : Link}
    (states : event.question.statement? = some link) : OpensNothing [event] := by
  intro _ he target same
  obtain rfl := List.mem_singleton.mp he
  rw [same] at states
  cases states

theorem OpensNothing.keepsConnecting_iff (h : OpensNothing events) :
    KeepsConnecting c events ↔ c.phase = .connecting := by
  simp [KeepsConnecting, h.not_abandonedOpening, h.openedBy_eq_nil]

theorem OpensNothing.keepsConnecting_before (h : OpensNothing first)
    (same : c'.phase = .connecting ↔ c.phase = .connecting) :
    KeepsConnecting c (first ++ second) ↔ KeepsConnecting c' second := by
  simp [KeepsConnecting, abandonedOpening_append, h.not_abandonedOpening, h.openedBy_eq_nil, same]

theorem OpensNothing.keepsConnecting_behind (h : OpensNothing second) :
    KeepsConnecting c (first ++ second) ↔ KeepsConnecting c first := by
  simp [KeepsConnecting, abandonedOpening_append, h.not_abandonedOpening, h.openedBy_eq_nil]

theorem Retargeting.opensNothing {o : Reach Connection Unit} (h : Retargeting view c events o) :
    OpensNothing events := by
  cases h <;> simp [OpensNothing]

theorem Closing.opensNothing {o : Reach Connection Unit} (h : Closing view c events o) :
    OpensNothing events := by
  cases h <;> simp [OpensNothing]

/-- A connection that holds a link is open, and broken once the link fails. -/
theorem Sound.failed_not_connecting (s : Sound past c) {link : Link} (held : c.link = some link)
    (e : LinkError) : (c.failed e).phase ≠ .connecting := by
  rw [Connection.failed]
  split
  · simp [Connection.discard]
  · simp [s.phase_of_held held]

theorem Sound.recover_connecting_iff (s : Sound past c) :
    c.recover.phase = .connecting ↔ c.phase = .connecting := by
  rw [Connection.recover]
  split
  · dsimp only
    split
    · rename_i held
      simp [Connection.discard, s.opened_iff.mpr held]
    · rfl
  · rfl

theorem Retargeting.connecting_iff {o : Reach Connection Unit} (h : Retargeting view c events o)
    (s : Sound past c) : o.left.phase = .connecting ↔ c.phase = .connecting := by
  cases h with
  | unchanged | idle | refused | turning | turned => rfl
  | failed moves =>
    refine iff_of_false ?_ (by simp [s.phase_of_held moves.held])
    exact ((s.seeing view).marked false).failed_not_connecting moves.held _
  | leaving moves | left moves =>
    refine iff_of_false (by simp [Outcome.left, Connection.discard]) ?_
    simp [s.phase_of_held moves.held]

theorem Opening.connecting_iff {o : Reach Connection Link} (h : Opening view c events o) :
    o.left.phase = .connecting ↔ KeepsConnecting c events := by
  cases h with
  | standing | refused => simp [Outcome.left, KeepsConnecting, AbandonedOpening, openedBy]
  | opening => simp [Outcome.left, KeepsConnecting, AbandonedOpening]
  | @opened target answer link free named good =>
    obtain ⟨reply, after⟩ := answer
    obtain rfl : reply = .ok link := good
    simp [Outcome.left, KeepsConnecting, AbandonedOpening, openedBy, opened?]
  | @failed target answer e free named bad =>
    obtain ⟨reply, after⟩ := answer
    obtain rfl : reply = .error e := bad
    simp [Outcome.left, KeepsConnecting, AbandonedOpening, openedBy, opened?]

theorem Readying.connecting_iff {o : Reach Connection Link} (h : Readying view c events o)
    (s : Sound past c) : o.left.phase = .connecting ↔ KeepsConnecting c events := by
  have followed {o : Reach Connection Unit} {first : List Event}
      (follows : Retargeting view c.recover first o) :
      o.left.phase = .connecting ↔ c.phase = .connecting :=
    (follows.connecting_iff s.recover).trans s.recover_connecting_iff
  cases h with
  | turning follows | refused follows | held follows =>
    rw [follows.opensNothing.keepsConnecting_iff]
    exact followed follows
  | opening follows lacks opens | failed follows lacks opens | opened follows lacks opens =>
    rw [follows.opensNothing.keepsConnecting_before (followed follows)]
    exact opens.connecting_iff

theorem Sending.connecting_iff {q : Link → Request} {o : Reach Connection Unit}
    (h : Sending q view c events o) (states : ∀ link, (q link).statement? = some link)
    (s : Sound past c) : o.left.phase = .connecting ↔ KeepsConnecting c events := by
  cases h with
  | waiting readies | refused readies => exact readies.connecting_iff s
  | @sent first c' link after readies =>
    rw [(opensNothing_statement (states link)).keepsConnecting_behind]
    exact readies.connecting_iff s
  | @answered first c' link after readies =>
    rw [(opensNothing_statement (states link)).keepsConnecting_behind]
    exact readies.connecting_iff s
  | @failed first c' link after readies answer e bad =>
    -- the connection is ready, hence open, and so it was not connecting before the failure either
    rw [(opensNothing_statement (states link)).keepsConnecting_behind, ← readies.connecting_iff s]
    have ready : Sound (past ++ first) { c' with inFlight := false } :=
      (readies.sound s).marked false
    have held : c'.link = some link := readies.holds.1
    have opened : c'.phase = .opened := ready.phase_of_held held
    exact iff_of_false (ready.failed_not_connecting held e) (by simp [Outcome.left, opened])

theorem Task.ne_close_of_request? {task : Task} {r : Except ConnectionError (Link → Request)}
    (h : task.request? = some r) : task ≠ .close := by
  rintro rfl
  cases h

/-- An operation leaves `connecting` behind when its opening is given up, and it finds and keeps it
when it opens nothing and does not close. -/
theorem Task.Going.connecting_iff {task : Task} {o : Reach Connection Unit}
    (h : Going view c task events o) (s : Sound past c) :
    o.left.phase = .connecting ↔ AbandonedOpening events ∨
      c.phase = .connecting ∧ openedBy events = [] ∧ task ≠ .close := by
  have keeps (other : task ≠ .close) : (AbandonedOpening events ∨
      c.phase = .connecting ∧ openedBy events = [] ∧ task ≠ .close) ↔ KeepsConnecting c events := by
    simp [KeepsConnecting, other]
  cases h with
  | connect goes =>
    rw [keeps (by simp)]
    cases goes with
    | waiting readies | refused readies | connected readies => exact readies.connecting_iff s
  | close goes =>
    refine iff_of_false ?_ (by simp [goes.opensNothing.not_abandonedOpening])
    cases goes <;> simp [Outcome.left, Connection.closed]
  | retarget goes =>
    rw [keeps (by simp), goes.opensNothing.keepsConnecting_iff]
    exact goes.connecting_iff s
  | unbound lacks =>
    rw [keeps (ne_close_of_request? lacks)]
    have nothing : OpensNothing [] := by simp [OpensNothing]
    exact nothing.keepsConnecting_iff.symm
  | send sends goes =>
    rw [keeps (ne_close_of_request? sends)]
    exact goes.connecting_iff (statement?_of_request? sends) s

end Phases

end Connection

end TypedSql
