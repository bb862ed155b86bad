/-
What an operation on a connection does.

Each operation is taken apart once into all the ways it can go: which requests it makes of the
server, with which answers, and what it leaves if it is abandoned at one of them or comes to its
end. All that is proved of runs starts from these relations, and no proof opens an operation again.

* `retarget_made`, `openLink_made`, `ready_made`, `close_made` — the parts of operations;
* `Task.made` — the operations that an application asks for.
-/
import TypedSql.Connection.Basic
import TypedSql.Proofs.Trace

namespace TypedSql

namespace Connection

open Exchange (Made Reach)

/-! ### Following the settings -/

/-- The connection after the settings of a view have been seen. -/
def seeing (c : Connection) (view : View) : Connection :=
  { c with subscription := view.store.markSeen c.subscription }

/-- A link is held while the settings have changed to a target that can be read. -/
structure Moves (view : View) (c : Connection) (link : Link) (current next : Target) : Prop where
  changed : view.store.hasChanged c.subscription = true
  held : c.link = some link
  turned : c.target = some current
  named : targetOf view.store.current = .ok next

/-- The ways in which a connection follows the settings. -/
inductive Retargeting (view : View) (c : Connection) : List Event → Reach Connection Unit → Prop
  | unchanged (same : view.store.hasChanged c.subscription = false) :
      Retargeting view c [] (.finished c (.ok (), view))
  | idle (changed : view.store.hasChanged c.subscription = true)
      (nothing : c.link = none ∨ c.target = none) :
      Retargeting view c [] (.finished (c.seeing view) (.ok (), view))
  | refused {link : Link} {e : ConnectionError}
      (changed : view.store.hasChanged c.subscription = true) (held : c.link = some link)
      (bad : targetOf view.store.current = .error e) :
      Retargeting view c [] (.finished (c.seeing view) (.error e, view))
  | turning {link : Link} {current next : Target} (moves : Moves view c link current next)
      (near : current.sameEndpoint next = true) :
      Retargeting view c [⟨.changeUser link next.user next.password next.database, none⟩]
        (.waiting { c.seeing view with inFlight := true })
  | turned {link : Link} {current next : Target} (moves : Moves view c link current next)
      (near : current.sameEndpoint next = true)
      {answer : Answer (.changeUser link next.user next.password next.database)}
      (good : answer.reply = .ok ()) :
      Retargeting view c [⟨_, some answer⟩] (.finished
        { c.seeing view with inFlight := false, target := some next } (.ok (), answer.view))
  | failed {link : Link} {current next : Target} (moves : Moves view c link current next)
      (near : current.sameEndpoint next = true)
      {answer : Answer (.changeUser link next.user next.password next.database)} {e : LinkError}
      (bad : answer.reply = .error e) :
      Retargeting view c [⟨_, some answer⟩] (.finished
        (Connection.failed { c.seeing view with inFlight := false } e)
        (.error (.classify e), answer.view))
  | leaving {link : Link} {current next : Target} (moves : Moves view c link current next)
      (far : current.sameEndpoint next = false) :
      Retargeting view c [⟨.disconnect link, none⟩] (.waiting (c.seeing view).discard)
  | left {link : Link} {current next : Target} (moves : Moves view c link current next)
      (far : current.sameEndpoint next = false) (answer : Answer (.disconnect link)) :
      Retargeting view c [⟨_, some answer⟩]
        (.finished (c.seeing view).discard (.ok (), answer.view))

section Settling

variable {α β : Type} {view : View} {c : Connection} {events : List Event} {o : Reach Connection β}
  {f : α → Exchange Connection β}

theorem settle_ok_bind {a : α} :
    (settle (.ok a) >>= f).Made view c events o ↔
      (f a).Made view { c with inFlight := false } events o :=
  Iff.rfl

theorem settle_error_bind {e : LinkError} :
    (settle (.error e) >>= f).Made view c events o ↔ events = [] ∧
      o = .finished (Connection.failed { c with inFlight := false } e)
        (.error (.classify e), view) :=
  Dialogue.traced_done

end Settling

theorem turn_made {view : View} {c : Connection} {link : Link} {current next : Target}
    {events : List Event} {o : Reach Connection Unit}
    (h : (turn link current next).Made view (c.seeing view) events o)
    (moves : Moves view c link current next) : Retargeting view c events o := by
  rw [turn] at h
  split_ifs at h with hnear
  · rw [Exchange.made_modify_bind, Exchange.made_request_bind] at h
    obtain ⟨rfl, rfl⟩ | ⟨⟨reply, after⟩, rest, rfl, h⟩ := h
    · exact .turning moves hnear
    · cases reply with
      | ok a =>
        obtain ⟨rfl, rfl⟩ := Exchange.made_modify.mp (settle_ok_bind.mp h)
        exact .turned moves hnear rfl
      | error e =>
        obtain ⟨rfl, rfl⟩ := settle_error_bind.mp h
        exact .failed moves hnear rfl
  · rw [Exchange.made_modify_bind, Exchange.made_request_bind] at h
    obtain ⟨rfl, rfl⟩ | ⟨answer, rest, rfl, h⟩ := h
    · exact .leaving moves (by simpa using hnear)
    · obtain ⟨rfl, rfl⟩ := Exchange.made_pure.mp h
      exact .left moves (by simpa using hnear) answer

theorem retarget_made {view : View} {c : Connection} {events : List Event}
    {o : Reach Connection Unit} (h : retarget.Made view c events o) :
    Retargeting view c events o := by
  rw [retarget, Exchange.made_view_bind, Exchange.made_get_bind] at h
  split_ifs at h with hchanged
  · rw [Exchange.made_modify_bind] at h
    split at h
    · rename_i link current hlink htarget
      cases hnext : targetOf view.store.current with
      | error e =>
        rw [hnext, Exchange.made_error_bind] at h
        obtain ⟨rfl, rfl⟩ := h
        exact .refused hchanged hlink hnext
      | ok next =>
        rw [hnext, Exchange.made_ok_bind] at h
        exact turn_made h ⟨hchanged, hlink, htarget, hnext⟩
    · rename_i hnothing
      obtain ⟨rfl, rfl⟩ := Exchange.made_pure.mp h
      refine .idle hchanged ?_
      cases hlink : c.link with
      | none => exact .inl rfl
      | some link =>
        cases htarget : c.target with
        | none => exact .inr rfl
        | some current => exact absurd htarget (hnothing link current hlink)
  · obtain ⟨rfl, rfl⟩ := Exchange.made_pure.mp h
    exact .unchanged (by simpa using hchanged)

/-! ### Opening a link -/

/-- The ways in which a connection opens a link, or fails to. -/
inductive Opening (view : View) (c : Connection) : List Event → Reach Connection Link → Prop
  | standing {e : ConnectionError} (failure : c.opener.standing? view.now = some e) :
      Opening view c [] (.finished c (.error e, view))
  | refused {e : ConnectionError} (free : c.opener.standing? view.now = none)
      (bad : targetOf view.store.current = .error e) :
      Opening view c [] (.finished
        { c with opener := c.opener.settle view.now (.error e : Except _ (Link × Target)) }
        (.error e, view))
  | opening {target : Target} (free : c.opener.standing? view.now = none)
      (named : targetOf view.store.current = .ok target) :
      Opening view c [⟨.openLink target, none⟩] (.waiting { c with phase := .connecting })
  | opened {target : Target} {answer : Answer (.openLink target)} {link : Link}
      (free : c.opener.standing? view.now = none)
      (named : targetOf view.store.current = .ok target) (good : answer.reply = .ok link) :
      Opening view c [⟨_, some answer⟩] (.finished
        { c with link := some link, target := some target, phase := .opened,
                 opener := c.opener.reset } (.ok link, answer.view))
  | failed {target : Target} {answer : Answer (.openLink target)} {e : LinkError}
      (free : c.opener.standing? view.now = none)
      (named : targetOf view.store.current = .ok target) (bad : answer.reply = .error e) :
      Opening view c [⟨_, some answer⟩] (.finished
        { c with opener := c.opener.settle answer.view.now
                  (.error (.opening e) : Except _ (Link × Target)) }
        (.error (.opening e), answer.view))

/-- What a connection makes of the end of an attempt to open a link. -/
def conclude (before : Phase) (opening : Except ConnectionError (Link × Target)) :
    Exchange Connection Link := do
  match opening with
  | .ok (link, target) =>
    modify fun c => { c with link := some link, target := some target, phase := .opened }
    pure link
  | .error e =>
    modify fun c => { c with phase := before }
    throw e

section Concluding

variable {view : View} {c : Connection} (before : Phase) {events : List Event}
  {o : Reach Connection Link}

theorem conclude_ok_made {link : Link} {target : Target} :
    (conclude before (.ok (link, target))).Made view c events o ↔ events = [] ∧ o = .finished
      { c with link := some link, target := some target, phase := .opened } (.ok link, view) :=
  Dialogue.traced_done

theorem conclude_error_made {e : ConnectionError} :
    (conclude before (.error e)).Made view c events o ↔ events = [] ∧
      o = .finished { c with phase := before } (.error e, view) :=
  Dialogue.traced_done

end Concluding

theorem openLink_made {view : View} {c : Connection} {events : List Event}
    {o : Reach Connection Link} (h : openLink.Made view c events o) : Opening view c events o := by
  rw [openLink, Exchange.made_view_bind, Exchange.made_get_bind, Exchange.made_modify_bind] at h
  dsimp only at h
  split at h
  · rename_i e hstanding
    rw [Exchange.made_pure_bind] at h
    obtain ⟨rfl, rfl⟩ := (conclude_error_made c.phase).mp h
    exact .standing hstanding
  · rename_i hstanding
    rw [tryOpen] at h
    cases htarget : targetOf view.store.current with
    | error e =>
      rw [htarget] at h
      obtain ⟨rfl, rfl⟩ := (conclude_error_made c.phase).mp h
      exact .refused hstanding htarget
    | ok target =>
      rw [htarget] at h
      dsimp only at h
      rw [bind_assoc, Exchange.made_request_bind] at h
      obtain ⟨rfl, rfl⟩ | ⟨⟨reply, after⟩, rest, rfl, h⟩ := h
      · exact .opening hstanding htarget
      · cases reply with
        | ok link =>
          obtain ⟨rfl, rfl⟩ := (conclude_ok_made c.phase).mp h
          exact .opened hstanding htarget rfl
        | error e =>
          obtain ⟨rfl, rfl⟩ := (conclude_error_made c.phase).mp h
          exact .failed hstanding htarget rfl

/-! ### Making ready -/

/-- The ways in which a connection is made ready. -/
inductive Readying (view : View) (c : Connection) : List Event → Reach Connection Link → Prop
  | turning {events : List Event} {c' : Connection}
      (follows : Retargeting view c.recover events (.waiting c')) :
      Readying view c events (.waiting c')
  | refused {events : List Event} {c' : Connection} {e : ConnectionError} {after : View}
      (follows : Retargeting view c.recover events (.finished c' (.error e, after))) :
      Readying view c events (.finished c' (.error e, after))
  | held {events : List Event} {c' : Connection} {after : View} {link : Link}
      (follows : Retargeting view c.recover events (.finished c' (.ok (), after)))
      (holds : c'.link = some link) :
      Readying view c events (.finished { c' with inFlight := true } (.ok link, after))
  | opening {first second : List Event} {c' c'' : Connection} {after : View}
      (follows : Retargeting view c.recover first (.finished c' (.ok (), after)))
      (lacks : c'.link = none) (opens : Opening after c' second (.waiting c'')) :
      Readying view c (first ++ second) (.waiting c'')
  | failed {first second : List Event} {c' c'' : Connection} {after later : View}
      {e : ConnectionError}
      (follows : Retargeting view c.recover first (.finished c' (.ok (), after)))
      (lacks : c'.link = none) (opens : Opening after c' second (.finished c'' (.error e, later))) :
      Readying view c (first ++ second) (.finished c'' (.error e, later))
  | opened {first second : List Event} {c' c'' : Connection} {after later : View} {link : Link}
      (follows : Retargeting view c.recover first (.finished c' (.ok (), after)))
      (lacks : c'.link = none) (opens : Opening after c' second (.finished c'' (.ok link, later))) :
      Readying view c (first ++ second)
        (.finished { c'' with inFlight := true } (.ok link, later))

theorem ready_made {view : View} {c : Connection} {events : List Event}
    {o : Reach Connection Link} (h : ready.Made view c events o) : Readying view c events o := by
  rw [ready, Exchange.made_modify_bind, Exchange.made_bind] at h
  obtain ⟨c', rfl, h⟩ | ⟨c', e, after, rfl, h⟩ | ⟨c', ⟨⟩, after, first, second, rfl, h, h'⟩ := h
  · exact .turning (retarget_made h)
  · exact .refused (retarget_made h)
  · have follows := retarget_made h
    rw [Exchange.made_get_bind] at h'
    cases hlink : c'.link with
    | some link =>
      rw [hlink, Exchange.made_pure_bind, Exchange.made_modify_bind] at h'
      obtain ⟨rfl, rfl⟩ := Exchange.made_pure.mp h'
      rw [List.append_nil]
      exact .held follows hlink
    | none =>
      rw [hlink] at h'
      dsimp only at h'
      rw [Exchange.made_bind] at h'
      obtain ⟨c'', rfl, h'⟩ | ⟨c'', e, later, rfl, h'⟩ |
        ⟨c'', link, later, third, fourth, rfl, h', h''⟩ := h'
      · exact .opening follows hlink (openLink_made h')
      · exact .failed follows hlink (openLink_made h')
      · rw [Exchange.made_modify_bind] at h''
        obtain ⟨rfl, rfl⟩ := Exchange.made_pure.mp h''
        rw [List.append_nil]
        exact .opened follows hlink (openLink_made h')

/-! ### Operations of an application -/

/-- The ways in which a connection is opened ahead of its use. -/
inductive Connecting (view : View) (c : Connection) : List Event → Reach Connection Unit → Prop
  | waiting {events : List Event} {c' : Connection}
      (readies : Readying view c events (.waiting c')) : Connecting view c events (.waiting c')
  | refused {events : List Event} {c' : Connection} {e : ConnectionError} {after : View}
      (readies : Readying view c events (.finished c' (.error e, after))) :
      Connecting view c events (.finished c' (.error e, after))
  | connected {events : List Event} {c' : Connection} {link : Link} {after : View}
      (readies : Readying view c events (.finished c' (.ok link, after))) :
      Connecting view c events (.finished { c' with inFlight := false } (.ok (), after))

theorem connect_made {view : View} {c : Connection} {events : List Event}
    {o : Reach Connection Unit} (h : connect.Made view c events o) :
    Connecting view c events o := by
  rw [connect, Exchange.made_bind] at h
  obtain ⟨c', rfl, h⟩ | ⟨c', e, after, rfl, h⟩ | ⟨c', link, after, first, second, rfl, h, h'⟩ := h
  · exact .waiting (ready_made h)
  · exact .refused (ready_made h)
  · obtain ⟨rfl, rfl⟩ := Exchange.made_modify.mp h'
    rw [List.append_nil]
    exact .connected (ready_made h)

/-- The connection after it was closed. -/
def closed (c : Connection) : Connection :=
  { c with link := none, target := none, inFlight := false, phase := .closed }

/-- The ways in which a connection is closed. -/
inductive Closing (view : View) (c : Connection) : List Event → Reach Connection Unit → Prop
  | idle (lacks : c.link = none) : Closing view c [] (.finished c.closed (.ok (), view))
  | leaving {link : Link} (holds : c.link = some link) :
      Closing view c [⟨.disconnect link, none⟩] (.waiting c.closed)
  | left {link : Link} (holds : c.link = some link) {answer : Answer (.disconnect link)}
      (good : answer.reply = .ok ()) :
      Closing view c [⟨_, some answer⟩] (.finished c.closed (.ok (), answer.view))
  | failed {link : Link} (holds : c.link = some link) {answer : Answer (.disconnect link)}
      {e : LinkError} (bad : answer.reply = .error e) :
      Closing view c [⟨_, some answer⟩] (.finished c.closed (.error (.classify e), answer.view))

theorem close_made {view : View} {c : Connection} {events : List Event}
    {o : Reach Connection Unit} (h : close.Made view c events o) : Closing view c events o := by
  rw [close, Exchange.made_get_bind, Exchange.made_modify_bind] at h
  cases hlink : c.link with
  | none =>
    rw [hlink] at h
    obtain ⟨rfl, rfl⟩ := Exchange.made_pure.mp h
    exact .idle hlink
  | some link =>
    rw [hlink] at h
    dsimp only at h
    rw [Exchange.made_request_bind] at h
    obtain ⟨rfl, rfl⟩ | ⟨⟨reply, after⟩, rest, rfl, h⟩ := h
    · exact .leaving hlink
    · cases reply with
      | ok a =>
        obtain ⟨rfl, rfl⟩ := Exchange.made_pure.mp h
        exact .left hlink rfl
      | error e =>
        obtain ⟨rfl, rfl⟩ := Exchange.made_throw.mp h
        exact .failed hlink rfl

/-- Makes the connection ready and sends one request on its link. -/
def send (q : Link → Request) : Exchange Connection Unit := do
  let link ← ready
  let _ ← settle (← Exchange.request (q link))

/-- The ways in which a request is sent. -/
inductive Sending (q : Link → Request) (view : View) (c : Connection) :
    List Event → Reach Connection Unit → Prop
  | waiting {events : List Event} {c' : Connection}
      (readies : Readying view c events (.waiting c')) : Sending q view c events (.waiting c')
  | refused {events : List Event} {c' : Connection} {e : ConnectionError} {after : View}
      (readies : Readying view c events (.finished c' (.error e, after))) :
      Sending q view c events (.finished c' (.error e, after))
  | sent {events : List Event} {c' : Connection} {link : Link} {after : View}
      (readies : Readying view c events (.finished c' (.ok link, after))) :
      Sending q view c (events ++ [⟨q link, none⟩]) (.waiting c')
  | answered {events : List Event} {c' : Connection} {link : Link} {after : View}
      (readies : Readying view c events (.finished c' (.ok link, after)))
      {answer : Answer (q link)} {a : (q link).Reply} (good : answer.reply = .ok a) :
      Sending q view c (events ++ [⟨q link, some answer⟩])
        (.finished { c' with inFlight := false } (.ok (), answer.view))
  | failed {events : List Event} {c' : Connection} {link : Link} {after : View}
      (readies : Readying view c events (.finished c' (.ok link, after)))
      {answer : Answer (q link)} {e : LinkError} (bad : answer.reply = .error e) :
      Sending q view c (events ++ [⟨q link, some answer⟩])
        (.finished (Connection.failed { c' with inFlight := false } e)
          (.error (.classify e), answer.view))

theorem send_made {q : Link → Request} {view : View} {c : Connection} {events : List Event}
    {o : Reach Connection Unit} (h : (send q).Made view c events o) :
    Sending q view c events o := by
  rw [send, Exchange.made_bind] at h
  obtain ⟨c', rfl, h⟩ | ⟨c', e, after, rfl, h⟩ | ⟨c', link, after, first, second, rfl, h, h'⟩ := h
  · exact .waiting (ready_made h)
  · exact .refused (ready_made h)
  · have readies := ready_made h
    rw [Exchange.made_request_bind] at h'
    obtain ⟨rfl, rfl⟩ | ⟨⟨reply, later⟩, rest, rfl, h'⟩ := h'
    · exact .sent readies
    · cases reply with
      | ok a =>
        obtain ⟨rfl, rfl⟩ := Exchange.made_pure.mp (settle_ok_bind.mp h')
        exact .answered readies rfl
      | error e =>
        obtain ⟨rfl, rfl⟩ := settle_error_bind.mp h'
        exact .failed readies rfl

/-- What an application asks of a connection. -/
inductive Task where
  | connect
  | close
  | retarget
  | queryRows (text : String)
  | execute (text : String)
  | queryBound (statement : Statement) (bindings : Bindings)
  | executeBound (statement : Statement) (bindings : Bindings)

namespace Task

/-- The operation, whose result is of no interest but for its failure. -/
def exchange : Task → Exchange Connection Unit
  | connect => Connection.connect
  | close => Connection.close
  | retarget => Connection.retarget
  | queryRows text => do let _ ← Connection.queryRows text
  | execute text => do let _ ← Connection.execute text
  | queryBound statement bindings => do let _ ← Connection.queryBound statement bindings
  | executeBound statement bindings => do let _ ← Connection.executeBound statement bindings

/-- What an operation that runs a statement sends on the link, if the statement has its values. -/
def request? : Task → Option (Except ConnectionError (Link → Request))
  | connect | close | retarget => none
  | queryRows text => some (.ok fun link => .query link text)
  | execute text => some (.ok fun link => .execute link text)
  | queryBound statement bindings =>
    some ((bound statement bindings).map fun b link => .queryBound link b)
  | executeBound statement bindings =>
    some ((bound statement bindings).map fun b link => .executeBound link b)

/-- An operation that runs a statement fails at once, or sends one request. -/
theorem exchange_eq_send {task : Task} {r : Except ConnectionError (Link → Request)}
    (h : task.request? = some r) : task.exchange = Exchange.ofExcept r >>= send := by
  cases task with
  | connect | close | retarget => simp [request?] at h
  | queryRows text =>
    obtain rfl := Option.some.inj h
    show _ = send _
    simp [exchange, Connection.queryRows, send]
    rfl
  | execute text =>
    obtain rfl := Option.some.inj h
    show _ = send _
    simp [exchange, Connection.execute, send]
    rfl
  | queryBound statement bindings =>
    obtain rfl := Option.some.inj h
    cases hb : bound statement bindings with
    | error e => simp only [exchange, Connection.queryBound, hb]; rfl
    | ok b =>
      show _ = send _
      simp [exchange, Connection.queryBound, hb, send]
      rfl
  | executeBound statement bindings =>
    obtain rfl := Option.some.inj h
    cases hb : bound statement bindings with
    | error e => simp only [exchange, Connection.executeBound, hb]; rfl
    | ok b =>
      show _ = send _
      simp [exchange, Connection.executeBound, hb, send]
      rfl

/-- The ways in which an operation goes. -/
inductive Going (view : View) (c : Connection) :
    Task → List Event → Reach Connection Unit → Prop
  | connect {events : List Event} {o : Reach Connection Unit}
      (goes : Connecting view c events o) : Going view c .connect events o
  | close {events : List Event} {o : Reach Connection Unit}
      (goes : Closing view c events o) : Going view c .close events o
  | retarget {events : List Event} {o : Reach Connection Unit}
      (goes : Retargeting view c events o) : Going view c .retarget events o
  | unbound {task : Task} {e : ConnectionError} (lacks : task.request? = some (.error e)) :
      Going view c task [] (.finished c (.error e, view))
  | send {task : Task} {q : Link → Request} (sends : task.request? = some (.ok q))
      {events : List Event} {o : Reach Connection Unit} (goes : Sending q view c events o) :
      Going view c task events o

theorem made {task : Task} {view : View} {c : Connection} {events : List Event}
    {o : Reach Connection Unit} (h : task.exchange.Made view c events o) :
    Going view c task events o := by
  cases hrequest : task.request? with
  | some r =>
    rw [exchange_eq_send hrequest] at h
    cases r with
    | error e =>
      obtain ⟨rfl, rfl⟩ := Exchange.made_error_bind.mp h
      exact .unbound hrequest
    | ok q => exact .send hrequest (send_made (Exchange.made_ok_bind.mp h))
  | none =>
    cases task with
    | connect => exact .connect (connect_made h)
    | close => exact .close (close_made h)
    | retarget => exact .retarget (retarget_made h)
    | queryRows _ | execute _ | queryBound _ _ | executeBound _ _ => simp [request?] at hrequest

end Task

end Connection

end TypedSql
