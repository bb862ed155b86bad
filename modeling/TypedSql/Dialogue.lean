/-
Operations that ask. An operation works on a state, stops at each question until it is answered, and
ends with a result. The state that it leaves is told at each question too, because an operation may
be abandoned there, and it is never taken up again.

Main statements: `Operation.instLawfulMonad` (operations compose as programs do) and
`run_follow` (running two operations in a row is running one and then the other).
-/

namespace TypedSql

/-- An operation under way: it has ended, or it waits for the answer to a question. `Q` holds the
questions and `A` their answers. -/
inductive Dialogue (Q : Type) (A : Q → Type) (σ α : Type) where
  /-- The operation has ended. -/
  | done (left : σ) (result : α)
  /-- The operation waits. -/
  | ask (left : σ) (question : Q) (answered : A question → Dialogue Q A σ α)

/-- How far an operation came: to its end, or to a question that was never answered. -/
inductive Outcome (σ α : Type) where
  | finished (left : σ) (result : α)
  | waiting (left : σ)
  deriving DecidableEq, Repr

namespace Outcome

variable {σ α : Type}

/-- The state that is left, whether the operation ended or is given up. -/
def left : Outcome σ α → σ
  | finished s _ => s
  | waiting s => s

/-- The result; none if there was no end. -/
def result? : Outcome σ α → Option α
  | finished _ a => some a
  | waiting _ => none

end Outcome

namespace Dialogue

variable {Q P : Type} {A : Q → Type} {B : P → Type} {σ τ ρ α β ε : Type}

/-- Goes on with a second operation on a state of another type. While the first one is under way,
what it leaves is a part of the whole, as `whole` says. -/
def follow (whole : σ → τ) (f : σ → α → Dialogue Q A τ β) : Dialogue Q A σ α → Dialogue Q A τ β
  | done s a => f s a
  | ask s q k => ask (whole s) q fun a => (k a).follow whole f

/-- Goes on with a second operation. -/
def bind (d : Dialogue Q A σ α) (f : σ → α → Dialogue Q A σ β) : Dialogue Q A σ β :=
  d.follow id f

/-- The operation as one on a larger state. -/
def within (whole : σ → τ) (d : Dialogue Q A σ α) : Dialogue Q A τ α :=
  d.follow whole fun s a => done (whole s) a

/-- The operation with another result. -/
def map (f : α → β) (d : Dialogue Q A σ α) : Dialogue Q A σ β :=
  d.bind fun s a => done s (f a)

/-- Answers each question by an operation of its own, on a state of its own. -/
def through (f : (q : Q) → ρ → Dialogue P B ρ (A q)) :
    Dialogue Q A σ α → ρ → Dialogue P B ρ (σ × α)
  | done s a, r => done r (s, a)
  | ask _ q k, r => (f q r).bind fun r a => (k a).through f r

/-- Runs an operation against a partner who answers, or who never does. -/
def run (answer : (q : Q) → ε → ε × Option (A q)) : Dialogue Q A σ α → ε → ε × Outcome σ α
  | done s a, e => (e, .finished s a)
  | ask s q k, e =>
    match answer q e with
    | (e, some a) => (k a).run answer e
    | (e, none) => (e, .waiting s)

/-! ### Laws -/

@[simp] theorem bind_done (s : σ) (a : α) (f : σ → α → Dialogue Q A σ β) :
    (done s a).bind f = f s a := rfl

@[simp] theorem bind_ask (s : σ) (q : Q) (k : A q → Dialogue Q A σ α)
    (f : σ → α → Dialogue Q A σ β) :
    (ask s q k).bind f = ask s q fun a => (k a).bind f := rfl

theorem follow_follow (whole : σ → τ) (f : σ → α → Dialogue Q A τ β) (whole' : τ → ρ)
    {γ : Type} (g : τ → β → Dialogue Q A ρ γ) (d : Dialogue Q A σ α) :
    (d.follow whole f).follow whole' g =
      d.follow (whole' ∘ whole) fun s a => (f s a).follow whole' g := by
  induction d with
  | done s a => rfl
  | ask s q k ih => simp only [follow, ih, Function.comp]

@[simp] theorem follow_id_done (d : Dialogue Q A σ α) : d.follow id done = d := by
  induction d with
  | done s a => rfl
  | ask s q k ih => simp only [follow, ih, id]

/-- The second operation starts where the first one ended. -/
theorem run_follow (answer : (q : Q) → ε → ε × Option (A q)) (whole : σ → τ)
    (f : σ → α → Dialogue Q A τ β) (d : Dialogue Q A σ α) (e : ε) :
    (d.follow whole f).run answer e =
      match d.run answer e with
      | (e, .finished s a) => (f s a).run answer e
      | (e, .waiting s) => (e, .waiting (whole s)) := by
  induction d generalizing e with
  | done s a => rfl
  | ask s q k ih =>
    simp only [follow, run]
    rcases answer q e with ⟨e, _ | a⟩
    · rfl
    · exact ih a e

end Dialogue

/-- An operation on a state. -/
def Operation (Q : Type) (A : Q → Type) (σ α : Type) :=
  σ → Dialogue Q A σ α

namespace Operation

variable {Q : Type} {A : Q → Type} {σ α β : Type}

/-- Asks a question. -/
def ask (question : Q) : Operation Q A σ (A question) :=
  fun s => .ask s question fun a => .done s a

/-- Makes a step that asks nothing. -/
def step (f : σ → α × σ) : Operation Q A σ α :=
  fun s => .done (f s).2 (f s).1

instance : Monad (Operation Q A σ) where
  pure a := fun s => .done s a
  bind op f := fun s => (op s).bind fun s a => f a s

instance : MonadStateOf σ (Operation Q A σ) where
  get := step fun s => (s, s)
  set s := step fun _ => ((), s)
  modifyGet f := step f

instance instLawfulMonad : LawfulMonad (Operation Q A σ) :=
  LawfulMonad.mk' _ (fun op => funext fun s => Dialogue.follow_id_done (op s))
    (fun _ _ => rfl)
    (fun op f g => funext fun s =>
      Dialogue.follow_follow id (fun s a => f a s) id (fun s b => g b s) (op s))

end Operation

end TypedSql
