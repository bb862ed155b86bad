/-
The targets that statements go to.

The settings of a store change while connections live, and a connection that holds a link follows
them at the beginning of its next operation. It takes note of a change before it has followed it, so
that an operation that cannot follow a change, and keeps the link, has it forgotten (`Behind`).

* `Store.Becomes.eq_of_version_le` — a store that was not changed is the same store;
* `Task.Going.statement` — a statement is the last request of its operation;
* `Readying.origin`, `Task.Going.settled` — where the target of a link comes from;
* `statement_reaches` — every statement goes to the target that the settings named when they were
  read, unless an operation before has fallen behind these very settings.
-/
import TypedSql.Proofs.ConnectionState

namespace TypedSql

namespace Store

/-- A store comes of another one by writing settings. -/
def Becomes : Store → Store → Prop :=
  Relation.ReflTransGen fun s s' => ∃ settings, s' = s.update settings

theorem update_eq_or_lt (s : Store) (settings : Settings) :
    s.update settings = s ∨ s.version < (s.update settings).version := by
  rw [update]
  split
  · exact .inl rfl
  · exact .inr (Nat.lt_succ_self s.version)

theorem Becomes.eq_or_lt {s s' : Store} (h : s.Becomes s') : s' = s ∨ s.version < s'.version := by
  induction h with
  | refl => exact .inl rfl
  | @tail middle _ _ step ih =>
    obtain ⟨settings, rfl⟩ := step
    obtain same | later := middle.update_eq_or_lt settings
    · rwa [same]
    · obtain rfl | ih := ih
      · exact .inr later
      · exact .inr (ih.trans later)

theorem Becomes.version_le {s s' : Store} (h : s.Becomes s') : s.version ≤ s'.version := by
  obtain rfl | later := h.eq_or_lt
  · exact le_rfl
  · exact later.le

/-- Every change is counted. -/
theorem Becomes.eq_of_version_le {s s' : Store} (h : s.Becomes s')
    (unchanged : s'.version ≤ s.version) : s' = s :=
  h.eq_or_lt.resolve_right unchanged.not_gt

end Store

namespace Connection

open Exchange (Made Reach)

/-! ### Settings that are read -/

/-- The store at the time of each answer. -/
def answerStores (events : List Event) : List Store :=
  events.filterMap fun event => event.answer.map fun answer => answer.view.store

/-- The store as an operation sees it, at its beginning and with each answer. -/
def Performed.stores (p : Performed) : List Store :=
  p.view.store :: answerStores p.events

/-- The store as a run sees it. -/
def storesOf (history : List Performed) : List Store :=
  history.flatMap Performed.stores

/-- The settings that an operation reads before its statement: those of its beginning, or, if it
took leave of a link then, those at the time when it opens another. -/
inductive Reads (view : View) : List Event → Store → Prop
  | check (events : List Event) : Reads view events view.store
  | opening {other : Link} (farewell : Answer (.disconnect other)) {target : Target}
      (opened : Option (Answer (.openLink target))) :
      Reads view [⟨.disconnect other, some farewell⟩, ⟨.openLink target, opened⟩]
        farewell.view.store

/-- An operation fails to follow the settings that it sees, and leaves a connection that holds the
link all the same: the settings name no target, or the server refuses to turn the link to it. -/
inductive Behind (link : Link) (view : View) : List Event → Connection → ConnectionError → Prop
  | unreadable {c : Connection} {e : ConnectionError}
      (bad : targetOf view.store.current = .error e) (held : c.link = some link) :
      Behind link view [] c e
  | unturned {c : Connection} {next : Target}
      {answer : Answer (.changeUser link next.user next.password next.database)} {e : LinkError}
      (named : targetOf view.store.current = .ok next) (bad : answer.reply = .error e)
      (alive : e.isFatal = false) : Behind link view [⟨_, some answer⟩] c (.classify e)

/-- An operation after which a link is behind the settings. -/
def Performed.FallsBehind (p : Performed) (link : Link) : Prop :=
  ∃ c e after, p.outcome = .finished c (.error e, after) ∧ Behind link p.view p.events c e

/-! ### Statements -/

section Statements

variable {view : View} {c : Connection} {events first rest : List Event} {event : Event}
  {link : Link}

theorem Retargeting.no_statement {o : Reach Connection Unit} (h : Retargeting view c events o) :
    ∀ event ∈ events, event.question.statement? = none := by
  cases h <;> simp [Request.statement?]

theorem Opening.no_statement {o : Reach Connection Link} (h : Opening view c events o) :
    ∀ event ∈ events, event.question.statement? = none := by
  cases h <;> simp [Request.statement?]

theorem Closing.no_statement {o : Reach Connection Unit} (h : Closing view c events o) :
    ∀ event ∈ events, event.question.statement? = none := by
  cases h <;> simp [Request.statement?]

theorem Readying.no_statement {o : Reach Connection Link} (h : Readying view c events o) :
    ∀ event ∈ events, event.question.statement? = none := by
  cases h with
  | turning follows | refused follows | held follows => exact follows.no_statement
  | opening follows lacks opens | failed follows lacks opens | opened follows lacks opens =>
    intro event he
    exact (List.mem_append.mp he).elim (follows.no_statement event) (opens.no_statement event)

theorem Connecting.no_statement {o : Reach Connection Unit} (h : Connecting view c events o) :
    ∀ event ∈ events, event.question.statement? = none := by
  cases h with
  | waiting readies | refused readies | connected readies => exact readies.no_statement

/-- The first of some kind in a list that ends with the only one of this kind is the last. -/
theorem append_singleton_eq_append_cons {α : Type} {xs ys zs : List α} {x y : α}
    (h : xs ++ [x] = ys ++ y :: zs) (hy : y ∉ xs) : xs = ys ∧ x = y ∧ zs = [] := by
  obtain rfl | ⟨zs, z, rfl⟩ := List.eq_nil_or_concat' zs
  · obtain ⟨hxs, hx⟩ := List.append_inj' h rfl
    exact ⟨hxs, (List.cons.inj hx).1, rfl⟩
  · rw [← List.cons_append, ← List.append_assoc] at h
    obtain ⟨rfl, -⟩ := List.append_inj' h rfl
    exact absurd (by simp) hy

theorem Sending.statement {q : Link → Request} {o : Reach Connection Unit}
    (h : Sending q view c events o) (states : ∀ link, (q link).statement? = some link)
    (split : events = first ++ event :: rest) (sent : event.question.statement? = some link) :
    rest = [] ∧ event.question = q link ∧
      ∃ c' after, Readying view c first (.finished c' (.ok link, after)) := by
  -- nothing that is asked on the way to a connection that is ready is a statement
  have quiet {o : Reach Connection Link} (readies : Readying view c events o) : False := by
    have silent := readies.no_statement event (by simp [split])
    rw [sent] at silent
    cases silent
  have last {before : List Event} {c' : Connection} {other : Link} {after : View}
      {answer : Option (Answer (q other))}
      (readies : Readying view c before (.finished c' (.ok other, after)))
      (heq : before ++ [⟨q other, answer⟩] = first ++ event :: rest) :
      rest = [] ∧ event.question = q link ∧
        ∃ c' after, Readying view c first (.finished c' (.ok link, after)) := by
    have notMem : event ∉ before := fun he => by
      rw [readies.no_statement event he] at sent
      cases sent
    obtain ⟨rfl, rfl, rfl⟩ := append_singleton_eq_append_cons heq notMem
    obtain rfl : other = link := Option.some.inj ((states other).symm.trans sent)
    exact ⟨rfl, rfl, c', after, readies⟩
  cases h with
  | waiting readies | refused readies => exact (quiet readies).elim
  | sent readies | answered readies | failed readies => exact last readies split

/-- A statement is the last request of its operation, and it is the operation's own. -/
theorem Task.Going.statement {task : Task} {o : Reach Connection Unit}
    (h : Going view c task events o) (split : events = first ++ event :: rest)
    (sent : event.question.statement? = some link) :
    rest = [] ∧ (∃ q, task.request? = some (.ok q) ∧ event.question = q link) ∧
      ∃ c' after, Readying view c first (.finished c' (.ok link, after)) := by
  have mem : event ∈ events := by simp [split]
  have silent (none_sent : ∀ event ∈ events, event.question.statement? = none) : False := by
    rw [none_sent event mem] at sent
    cases sent
  cases h with
  | connect goes => exact (silent goes.no_statement).elim
  | close goes => exact (silent goes.no_statement).elim
  | retarget goes => exact (silent goes.no_statement).elim
  | unbound => cases mem
  | @send task q sends events o goes =>
    obtain ⟨hrest, hq, ready⟩ := goes.statement (statement?_of_request? sends) split sent
    exact ⟨hrest, ⟨q, sends, hq⟩, ready⟩

end Statements

/-! ### Where targets come from -/

/-- The target of a link is the one from before the operation, which found no change of the
settings, or one that settings name that the operation read. -/
inductive Origin (view : View) (c : Connection) (events : List Event) (link : Link)
    (target : Target) : Prop
  | kept (unmarked : c.inFlight = false) (held : c.link = some link)
      (turned : c.target = some target) (seen : c.subscription.seen = view.store.version)
  | read {store : Store} (reads : Reads view events store)
      (named : targetOf store.current = .ok target)

/-- The target of a link after an operation on `c` that left `c'`. Settings that the operation read,
it read before its statement. -/
inductive Settled (view : View) (c : Connection) (events : List Event)
    (r : Except ConnectionError Unit) (c' : Connection) (link : Link) (target : Target) : Prop
  | kept (unmarked : c.inFlight = false) (held : c.link = some link)
      (turned : c.target = some target) (same : c'.subscription.seen = c.subscription.seen)
  | read {first : List Event} {store : Store} (seen : c'.subscription.seen = view.store.version)
      (front : first <+: events) (reads : Reads view first store)
      (named : targetOf store.current = .ok target)
  | behind {e : ConnectionError} (seen : c'.subscription.seen = view.store.version)
      (failed : r = .error e) (behind : Behind link view events c' e)

section Origins

variable {view after : View} {c c' : Connection} {events first : List Event}
  {link : Link} {target : Target}

theorem seen_of_unchanged {store : Store} {sub : Subscription}
    (h : store.hasChanged sub = false) : sub.seen = store.version := by
  simpa [Store.hasChanged] using h

theorem Retargeting.seen {r : Except ConnectionError Unit}
    (h : Retargeting view c events (.finished c' (r, after))) :
    c'.subscription.seen = view.store.version := by
  cases h with
  | unchanged same => exact seen_of_unchanged same
  | idle | refused | turned | left => rfl
  | failed =>
    rw [Connection.failed]
    split <;> rfl

theorem Retargeting.origin {r : Except ConnectionError Unit}
    (h : Retargeting view c events (.finished c' (r, after)))
    (unmarked : c' = c → c.inFlight = false) (held : c'.link = some link)
    (turned : c'.target = some target) :
    Origin view c events link target ∨ ∃ e, r = .error e ∧ Behind link view events c' e := by
  cases h with
  | unchanged same => exact .inl (.kept (unmarked rfl) held turned (seen_of_unchanged same))
  | idle changed nothing =>
    obtain lacks | lacks := nothing
    · cases lacks.symm.trans held
    · cases lacks.symm.trans turned
  | refused changed _ bad => exact .inr ⟨_, rfl, .unreadable bad held⟩
  | @turned other current next moves =>
    obtain rfl := Option.some.inj turned
    exact .inl (.read (.check _) moves.named)
  | @failed other current next moves near answer e bad =>
    rw [Connection.failed] at held
    split at held
    · cases held
    · rename_i alive
      obtain rfl : other = link := Option.some.inj (moves.held.symm.trans held)
      exact .inr ⟨_, rfl, .unturned moves.named bad (by simpa using alive)⟩
  | left => cases held

theorem Opening.link_eq_none {e : ConnectionError}
    (h : Opening view c events (.finished c' (.error e, after))) (lacks : c.link = none) :
    c'.link = none := by
  cases h <;> exact lacks

theorem Readying.seen {r : Except ConnectionError Link}
    (h : Readying view c events (.finished c' (r, after))) :
    c'.subscription.seen = view.store.version := by
  cases h with
  | refused follows | held follows => exact follows.seen
  | failed follows lacks opens | opened follows lacks opens =>
    have seen := follows.seen
    cases opens <;> exact seen

theorem Readying.origin {r : Except ConnectionError Link}
    (h : Readying view c events (.finished c' (r, after)))
    (held : c'.link = some link) (turned : c'.target = some target) :
    Origin view c events link target ∨ ∃ e, r = .error e ∧ Behind link view events c' e := by
  -- a link that is held after the start is not marked, so that nothing was recovered
  have recovered (origin : Origin view c.recover events link target) :
      Origin view c events link target := by
    cases origin with
    | kept unmarked held turned seen =>
      obtain ⟨unmarked, -⟩ := link_recover held
      rw [recover_of_not_inFlight unmarked] at held turned seen
      exact .kept unmarked held turned seen
    | read reads named => exact .read reads named
  cases h with
  | refused follows =>
    obtain origin | ⟨e, heq, behind⟩ :=
      follows.origin (fun _ => inFlight_recover c) held turned
    · exact .inl (recovered origin)
    · obtain rfl := Except.error.inj heq
      exact .inr ⟨_, rfl, behind⟩
  | held follows =>
    obtain origin | ⟨e, heq, -⟩ :=
      follows.origin (fun _ => inFlight_recover c) held turned
    · exact .inl (recovered origin)
    · cases heq
  | failed follows lacks opens => cases (opens.link_eq_none lacks).symm.trans held
  | opened follows lacks opens =>
    cases opens with
    | opened free named good =>
      obtain rfl := Option.some.inj turned
      -- the settings were read at the beginning, or after a farewell
      cases follows with
      | unchanged | idle => exact .inl (.read (.check _) named)
      | turned moves => cases moves.held.symm.trans lacks
      | left moves far farewell => exact .inl (.read (.opening farewell _) named)

theorem Origin.settled {r : Except ConnectionError Unit}
    (origin : Origin view c first link target) (front : first <+: events)
    (seen : c'.subscription.seen = view.store.version) :
    Settled view c events r c' link target := by
  cases origin with
  | kept unmarked held turned before =>
    exact .kept unmarked held turned (seen.trans before.symm)
  | read reads named => exact .read seen front reads named

/-- An operation that failed to be ready ended there, and another one leaves the target that it was
ready with. -/
theorem Readying.settled {r : Except ConnectionError Unit} {r' : Except ConnectionError Link}
    {c'' : Connection} (h : Readying view c first (.finished c'' (r', after)))
    (front : first <+: events) (held : c''.link = some link) (turned : c''.target = some target)
    (same : c'.subscription = c''.subscription)
    (failing : ∀ e, r' = .error e → r = .error e ∧ first = events ∧ c'' = c') :
    Settled view c events r c' link target := by
  have seen : c'.subscription.seen = view.store.version := same ▸ h.seen
  obtain origin | ⟨e, heq, behind⟩ := h.origin held turned
  · exact origin.settled front seen
  · obtain ⟨hr, rfl, rfl⟩ := failing e heq
    exact .behind seen hr behind

/-- Where the target of a link comes from that an operation leaves without the mark. -/
theorem Task.Going.settled {task : Task} {r : Except ConnectionError Unit}
    (h : Going view c task events (.finished c' (r, after))) (unmarked : c'.inFlight = false)
    (held : c'.link = some link) (turned : c'.target = some target) :
    Settled view c events r c' link target := by
  cases h with
  | connect goes =>
    cases goes with
    | refused readies =>
      refine readies.settled List.prefix_rfl held turned rfl ?_
      rintro _ ⟨⟩
      exact ⟨rfl, rfl, rfl⟩
    | connected readies =>
      exact readies.settled List.prefix_rfl held turned rfl (by rintro _ ⟨⟩)
  | close goes => cases goes <;> cases held
  | retarget goes =>
    obtain origin | ⟨e, hr, behind⟩ := goes.origin (fun same => same ▸ unmarked) held turned
    · exact origin.settled List.prefix_rfl goes.seen
    · exact .behind goes.seen hr behind
  | unbound => exact .kept unmarked held turned rfl
  | send sends goes =>
    cases goes with
    | refused readies =>
      refine readies.settled List.prefix_rfl held turned rfl ?_
      rintro _ ⟨⟩
      exact ⟨rfl, rfl, rfl⟩
    | answered readies =>
      exact readies.settled (List.prefix_append _ _) held turned rfl (by rintro _ ⟨⟩)
    | @failed _ c'' _ _ readies _ e =>
      -- a link is held after a failure only if the failure was not fatal
      have alive : e.isFatal ≠ true := fun fatal => by
        rw [Connection.failed, if_pos fatal] at held
        cases held
      rw [Connection.failed, if_neg alive] at held turned ⊢
      exact readies.settled (List.prefix_append _ _) held turned rfl (by rintro _ ⟨⟩)

end Origins

/-! ### Runs -/

/-- A link in hand that is not marked goes to the target that the settings named as late as the
last change that was seen, or an operation has fallen behind them. -/
def Followed (history : List Performed) (c : Connection) : Prop :=
  c.inFlight = false → ∀ link target, c.link = some link → c.target = some target →
    ∃ store ∈ storesOf history, c.subscription.seen ≤ store.version ∧
      (targetOf store.current = .ok target ∨
        ∃ q ∈ history, q.FallsBehind link ∧ q.view.store = store)

section Runs

variable {view : View} {c : Connection} {p : Performed} {history before after : List Performed}
  {first : List Event} {store : Store}

theorem Reads.mem (h : Reads view first store) {events : List Event} (front : first <+: events) :
    store ∈ view.store :: answerStores events := by
  cases h with
  | check => exact List.mem_cons_self
  | opening farewell opened =>
    obtain ⟨rest, rfl⟩ := front
    simp [answerStores]

theorem storesOf_concat : storesOf (history ++ [p]) = storesOf history ++ p.stores := by
  simp [storesOf]

/-- An operation leaves a link whose target was followed. -/
theorem Followed.concat (f : Followed history c)
    (made : p.task.exchange.Made p.view c p.events p.outcome)
    (time : (storesOf (history ++ [p])).Pairwise Store.Becomes) :
    Followed (history ++ [p]) p.outcome.left := by
  intro unmarked link target held turned
  cases hout : p.outcome with
  | waiting c' =>
    rw [hout] at made held unmarked
    exact absurd ((Task.made made).marked held) (by simp_all [Outcome.left])
  | finished c' result =>
    obtain ⟨r, after⟩ := result
    rw [hout] at made held turned unmarked
    -- the operation has seen the settings of its beginning, and what it reads later is no older
    have own : ∀ store ∈ p.stores, p.view.store.version ≤ store.version := by
      intro store hstore
      rw [storesOf_concat, List.pairwise_append] at time
      obtain rfl | hlater := List.mem_cons.mp hstore
      · exact le_rfl
      · exact ((List.pairwise_cons.mp time.2.1).1 store hlater).version_le
    rw [storesOf_concat]
    cases (Task.made made).settled unmarked held turned with
    | kept unmarked held turned same =>
      obtain ⟨store, hstore, hle, hnamed⟩ := f unmarked link target held turned
      refine ⟨store, List.mem_append_left _ hstore, same.trans_le hle, hnamed.imp_right ?_⟩
      rintro ⟨q, hq, hbehind⟩
      exact ⟨q, List.mem_append_left _ hq, hbehind⟩
    | @read first store seen front reads named =>
      have mem : store ∈ p.stores := reads.mem front
      exact ⟨store, List.mem_append_right _ mem, seen.trans_le (own store mem), .inl named⟩
    | behind seen failed behind =>
      subst failed
      refine ⟨p.view.store, List.mem_append_right _ List.mem_cons_self, seen.le, .inr ⟨p, ?_⟩⟩
      exact ⟨by simp, ⟨c', _, after, hout, behind⟩, rfl⟩

theorem Run.followed {initial : Store} (run : Run (ofStore initial) history c)
    (time : (storesOf history).Pairwise Store.Becomes) : Followed history c := by
  induction history using List.reverseRecOn generalizing c with
  | nil =>
    cases run
    rintro - _ _ ⟨⟩
  | append_singleton history p ih =>
    obtain ⟨middle, hbefore, hlast⟩ := run_append.mp run
    obtain ⟨made, ⟨⟩⟩ := run_cons.mp hlast
    have earlier : (storesOf history).Pairwise Store.Becomes := by
      rw [storesOf_concat] at time
      exact (List.pairwise_append.mp time).1
    exact (ih hbefore earlier).concat made time

/-- Every statement goes over a link that was opened with a target or turned to it, and this target
is the one that the settings named when the operation read them. The exception is a link that an
operation before has left behind: that operation saw the same settings, could not follow them, and
said so, but the connection takes them for followed. -/
theorem statement_reaches {initial : Store} {event : Event} {rest : List Event} {link : Link}
    (run : Run (ofStore initial) (before ++ p :: after) c)
    (time : (storesOf (before ++ p :: after)).Pairwise Store.Becomes)
    (split : p.events = first ++ event :: rest) (sent : event.question.statement? = some link) :
    ∃ target, Reaches link target (eventsOf before ++ first) ∧
      ((∃ store, Reads p.view first store ∧ targetOf store.current = .ok target) ∨
        ∃ q ∈ before, q.FallsBehind link ∧ q.view.store = p.view.store) := by
  obtain ⟨middle, hbefore, hrun⟩ := run_append.mp run
  obtain ⟨made, -⟩ := run_cons.mp hrun
  obtain ⟨-, -, c', later, ready⟩ := (Task.made made).statement split sent
  have s : Sound (eventsOf before ++ first) c' := ready.sound (hbefore.sound (sound_ofStore initial))
  have held : c'.link = some link := ready.holds.1
  obtain ⟨target, turned⟩ := s.exists_target held
  refine ⟨target, s.reached link target held turned, ?_⟩
  have stores : storesOf (before ++ p :: after) = storesOf before ++ (p.stores ++ storesOf after) := by
    simp [storesOf]
  rw [stores, List.pairwise_append] at time
  obtain origin | ⟨e, heq, -⟩ := ready.origin held turned
  · cases origin with
    | kept unmarked held turned seen =>
      obtain ⟨store, hstore, hle, named⟩ := hbefore.followed time.1 unmarked link target held turned
      -- nothing was written since the last change that was seen
      obtain rfl : p.view.store = store :=
        (time.2.2 store hstore p.view.store (by simp [Performed.stores])).eq_of_version_le
          (seen ▸ hle)
      exact named.imp_left fun named => ⟨p.view.store, .check first, named⟩
    | read reads named => exact .inl ⟨_, reads, named⟩
  · cases heq

end Runs

/-! ### A change that is forgotten -/

/-- The settings of `appStore` after a text that is no connection string was written. -/
def strandedStore : Store :=
  (appStore "u" 0).update { connectionString := "nowhere" }

/-- The next statement is refused, because there is nowhere to send it. -/
def strandedQuery : Performed where
  task := .queryRows "SELECT 1"
  view := ⟨2, strandedStore⟩
  events := []
  outcome := .finished (appLinked "u" 1 false)
    (.error (.invalidConnectionString "URL parse error: relative URL without a base"),
      ⟨2, strandedStore⟩)

/-- The one after it is sent all the same. -/
def staleQuery : Performed where
  task := .queryRows "SELECT 1"
  view := ⟨3, strandedStore⟩
  events := [⟨.query ⟨0⟩ "SELECT 1", some ⟨.ok ([] : List ServerRow), ⟨4, strandedStore⟩⟩⟩]
  outcome := .finished (appLinked "u" 1 false) (.ok (), ⟨4, strandedStore⟩)

/-- A statement goes to the server that the settings named before, although they name none now, and
the operation that fell behind them is the one before it. -/
theorem statement_stranded :
    Run (ofStore (appStore "u" 0)) ([appConnect, strandedQuery] ++ staleQuery :: [])
      (appLinked "u" 1 false) ∧
    (storesOf ([appConnect, strandedQuery] ++ staleQuery :: [])).Pairwise Store.Becomes ∧
    (∀ target, targetOf strandedStore.current ≠ .ok target) ∧
    ∃ q ∈ [appConnect, strandedQuery], q.FallsBehind ⟨0⟩ ∧ q.view.store = staleQuery.view.store := by
  have run : Run (ofStore (appStore "u" 0)) ([appConnect, strandedQuery] ++ staleQuery :: [])
      (appLinked "u" 1 false) :=
    .cons (by decide +kernel) (.cons (by decide +kernel) (.cons (by decide +kernel) (.nil _)))
  have same (s : Store) : s.Becomes s := .refl
  have written : (appStore "u" 0).Becomes strandedStore := .single ⟨_, rfl⟩
  have time : (storesOf ([appConnect, strandedQuery] ++ staleQuery :: [])).Pairwise
      Store.Becomes := by
    simp [storesOf, Performed.stores, answerStores, appConnect, strandedQuery, staleQuery, same,
      written]
  have unnamed : ∀ target, targetOf strandedStore.current ≠ .ok target := by
    intro target named
    have refused : targetOf strandedStore.current =
        .error (.invalidConnectionString "URL parse error: relative URL without a base") := by
      decide +kernel
    cases refused.symm.trans named
  refine ⟨run, time, unnamed, ?_⟩
  have split : staleQuery.events = [] ++ _ :: [] := rfl
  have sent : (Request.query ⟨0⟩ "SELECT 1").statement? = some ⟨0⟩ := rfl
  obtain ⟨target, -, ⟨store, reads, named⟩ | behind⟩ := statement_reaches run time split sent
  · cases reads
    exact absurd named (unnamed target)
  · exact behind

end Connection

end TypedSql
