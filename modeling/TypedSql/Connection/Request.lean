/-
What connections ask of the world: links to the server are opened, used and closed. With each answer
comes a view of the clock and of the settings at that time, so that an operation stops nowhere but
at a request to the server.

Main statement: `start_bind` (how operations follow one another).
-/
import TypedSql.Connection.Error
import TypedSql.Connection.Target
import TypedSql.Dialogue
import TypedSql.Row.Basic
import TypedSql.Settings.Store
import TypedSql.Statement.Binding

namespace TypedSql

/-- A link to the server, by the number that it was given when it was opened. -/
structure Link where
  number : Nat
  deriving DecidableEq, Repr

/-- A row as the server sends it: for each column its name and a value. -/
abbrev ServerRow := List (String × Option Value)

/-- A request to the server. -/
inductive Request where
  | openLink (target : Target)
  /-- Runs a statement and takes its rows. -/
  | query (link : Link) (text : String)
  /-- Runs a statement and takes the number of rows that it changed. -/
  | execute (link : Link) (text : String)
  | queryBound (link : Link) (statement : BoundStatement)
  | executeBound (link : Link) (statement : BoundStatement)
  /-- Turns a link to another user and default database. -/
  | changeUser (link : Link) (user password database : Option String)
  | disconnect (link : Link)
  deriving DecidableEq, Repr

namespace Request

/-- What the server answers when all goes well. -/
def Reply : Request → Type
  | openLink _ => Link
  | query _ _ | queryBound _ _ => List ServerRow
  | execute _ _ | executeBound _ _ => UInt64
  | changeUser .. | disconnect _ => Unit

end Request

/-- The time, in nanoseconds, and the settings. -/
structure View where
  now : Nat
  store : Store
  deriving DecidableEq, Repr

/-- The answer to a request, and the view at the time when it came. -/
structure Answer (q : Request) where
  reply : Except LinkError q.Reply
  view : View

/-- What an exchange is made of. -/
abbrev ExchangeLayers (σ : Type) :=
  ExceptT ConnectionError (StateT View (Operation Request Answer σ))

/-- Operations on a state that talk to the server, have a view and may fail. -/
def Exchange (σ α : Type) :=
  ExchangeLayers σ α

namespace Exchange

variable {σ τ α : Type}

instance : Monad (Exchange σ) :=
  inferInstanceAs (Monad (ExchangeLayers σ))

instance : LawfulMonad (Exchange σ) :=
  inferInstanceAs (LawfulMonad (ExchangeLayers σ))

instance : MonadExceptOf ConnectionError (Exchange σ) :=
  inferInstanceAs (MonadExceptOf ConnectionError (ExchangeLayers σ))

/-- The operation on a given state. -/
def start (task : Exchange σ α) (view : View) (s : σ) :
    Dialogue Request Answer σ (Except ConnectionError α × View) :=
  task view s

/-- The operation with a given beginning. -/
def ofStart (f : View → σ → Dialogue Request Answer σ (Except ConnectionError α × View)) :
    Exchange σ α :=
  f

/-- Makes a step that asks nothing. -/
def step (f : σ → α × σ) : Exchange σ α :=
  ofStart fun v s => .done (f s).2 (.ok (f s).1, v)

instance : MonadStateOf σ (Exchange σ) where
  get := step fun s => (s, s)
  set s := step fun _ => ((), s)
  modifyGet := step

/-- Goes on with a result, or fails with it. -/
def ofExcept (r : Except ConnectionError α) : Exchange σ α :=
  ofStart fun v s => .done s (r, v)

/-- Asks the server. -/
def request (q : Request) : Exchange σ (Except LinkError q.Reply) :=
  ofStart fun _ s => .ask s q fun answer => .done s (.ok answer.reply, answer.view)

/-- The latest view. -/
def view : Exchange σ View :=
  ofStart fun v s => .done s (.ok v, v)

/-- The result of an operation that may have been given up before its end. -/
def resultOf (o : Outcome σ (Except ConnectionError α × View)) : Except ConnectionError α :=
  match o.result? with
  | some (r, _) => r
  | none => .error .cancelled

/-! ### Laws -/

@[simp] theorem start_pure (a : α) (view : View) (s : σ) :
    (pure a : Exchange σ α).start view s = .done s (.ok a, view) := rfl

@[simp] theorem start_throw (e : ConnectionError) (view : View) (s : σ) :
    (throw e : Exchange σ α).start view s = .done s (.error e, view) := rfl

@[simp] theorem start_get (view : View) (s : σ) :
    (get : Exchange σ σ).start view s = .done s (.ok s, view) := rfl

@[simp] theorem start_modify (f : σ → σ) (view : View) (s : σ) :
    (modify f : Exchange σ PUnit).start view s = .done (f s) (.ok ⟨⟩, view) := rfl

@[simp] theorem start_view (v : View) (s : σ) :
    (view : Exchange σ View).start v s = .done s (.ok v, v) := rfl

@[simp] theorem start_ofExcept (r : Except ConnectionError α) (view : View) (s : σ) :
    (ofExcept r : Exchange σ α).start view s = .done s (r, view) := rfl

@[simp] theorem start_request (q : Request) (view : View) (s : σ) :
    (request q : Exchange σ _).start view s =
      .ask s q fun answer => .done s (.ok answer.reply, answer.view) := rfl

/-- The second operation starts where the first one ended, unless that one failed. -/
theorem start_bind {β : Type} (x : Exchange σ α) (f : α → Exchange σ β) (view : View) (s : σ) :
    (x >>= f).start view s = (x.start view s).bind fun s (result, view) =>
      match result with
      | .ok a => (f a).start view s
      | .error e => .done s (.error e, view) := by
  show Dialogue.bind (x.start view s) _ = _
  congr 1
  funext s p
  obtain ⟨result, v⟩ := p
  cases result <;> rfl

end Exchange

end TypedSql
