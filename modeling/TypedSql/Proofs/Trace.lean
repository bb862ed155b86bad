/-
Traces of operations that ask.

A trace of an operation is what it asked and was answered, up to its end or to the question at which
it was abandoned (`Dialogue.Traced`).

* `traced_follow`, `traced_bind` — a trace of two operations in a row is one of the first, which may
  end there, and one of the second;
* `exists_traced_run` — whoever answers, running an operation follows one of its traces;
* `traced_iff_follow?` — what an operation makes of given answers can be computed, so that a trace
  can be checked;
* `Exchange.Made` — traces of operations that talk to the server, with one lemma for each way of
  beginning (`made_modify_bind`, `made_request_bind`, …).
-/
import Mathlib
import TypedSql.Connection.Request

namespace TypedSql

/-- A question, and the answer if there was one. -/
structure Asked {Q : Type} (A : Q → Type) where
  question : Q
  answer : Option (A question)

namespace Outcome

variable {σ τ α : Type}

/-- How far an operation came on a larger state. -/
def within (whole : σ → τ) : Outcome σ α → Outcome τ α
  | finished s a => .finished (whole s) a
  | waiting s => .waiting (whole s)

@[simp] theorem left_within (whole : σ → τ) (o : Outcome σ α) :
    (o.within whole).left = whole o.left := by
  cases o <;> rfl

end Outcome

namespace Dialogue

variable {Q : Type} {A : Q → Type} {σ α β ε : Type}

/-- What was asked and answered while an operation was under way, and how far it came. -/
inductive Traced : Dialogue Q A σ α → List (Asked A) → Outcome σ α → Prop
  | done (s : σ) (a : α) : Traced (.done s a) [] (.finished s a)
  | answered {s : σ} {q : Q} {k : A q → Dialogue Q A σ α} {answer : A q} {rest : List (Asked A)}
      {o : Outcome σ α} (behind : Traced (k answer) rest o) :
      Traced (.ask s q k) (⟨q, some answer⟩ :: rest) o
  | abandoned (s : σ) (q : Q) (k : A q → Dialogue Q A σ α) :
      Traced (.ask s q k) [⟨q, none⟩] (.waiting s)

variable {events : List (Asked A)} {o : Outcome σ α}

theorem traced_done {s : σ} {a : α} :
    Traced (.done s a : Dialogue Q A σ α) events o ↔ events = [] ∧ o = .finished s a := by
  constructor
  · rintro ⟨⟩
    exact ⟨rfl, rfl⟩
  · rintro ⟨rfl, rfl⟩
    exact .done s a

theorem traced_ask {s : σ} {q : Q} {k : A q → Dialogue Q A σ α} :
    Traced (.ask s q k) events o ↔ events = [⟨q, none⟩] ∧ o = .waiting s ∨
      ∃ answer rest, events = ⟨q, some answer⟩ :: rest ∧ Traced (k answer) rest o := by
  constructor
  · intro h
    cases h with
    | answered behind => exact .inr ⟨_, _, rfl, behind⟩
    | abandoned => exact .inl ⟨rfl, rfl⟩
  · rintro (⟨rfl, rfl⟩ | ⟨answer, rest, rfl, behind⟩)
    · exact .abandoned s q k
    · exact .answered behind

/-- A trace of an operation and of one on a larger state behind it. -/
theorem traced_follow {τ : Type} {d : Dialogue Q A σ α} {whole : σ → τ}
    {f : σ → α → Dialogue Q A τ β} {o : Outcome τ β} :
    Traced (d.follow whole f) events o ↔
      (∃ s, o = .waiting (whole s) ∧ Traced d events (.waiting s)) ∨
      ∃ s a first second, events = first ++ second ∧ Traced d first (.finished s a) ∧
        Traced (f s a) second o := by
  -- induction on the first operation, whose questions come first
  induction d generalizing events with
  | done s a =>
    rw [follow]
    constructor
    · intro h
      exact .inr ⟨s, a, [], events, rfl, .done s a, h⟩
    · rintro (⟨_, -, h⟩ | ⟨s', a', first, second, rfl, h, h'⟩)
      · exact absurd (traced_done.mp h).2 (by simp)
      · obtain ⟨rfl, heq⟩ := traced_done.mp h
        obtain ⟨rfl, rfl⟩ := Outcome.finished.inj heq
        exact h'
  | ask s q k ih =>
    rw [follow, traced_ask]
    constructor
    · rintro (⟨rfl, rfl⟩ | ⟨answer, rest, rfl, h⟩)
      · exact .inl ⟨s, rfl, .abandoned s q k⟩
      · obtain ⟨s', rfl, h'⟩ | ⟨s', a, first, second, rfl, hfirst, hsecond⟩ := (ih answer).mp h
        · exact .inl ⟨s', rfl, .answered h'⟩
        · exact .inr ⟨s', a, _ :: first, second, rfl, .answered hfirst, hsecond⟩
    · rintro (⟨s', rfl, h⟩ | ⟨s', a, first, second, rfl, hfirst, hsecond⟩)
      · cases h with
        | answered behind => exact .inr ⟨_, _, rfl, (ih _).mpr (.inl ⟨s', rfl, behind⟩)⟩
        | abandoned => exact .inl ⟨rfl, rfl⟩
      · cases hfirst with
        | answered behind =>
          exact .inr ⟨_, _, rfl, (ih _).mpr (.inr ⟨s', a, _, second, rfl, behind, hsecond⟩)⟩

/-- A trace of two operations in a row. -/
theorem traced_bind {d : Dialogue Q A σ α} {f : σ → α → Dialogue Q A σ β} {o : Outcome σ β} :
    Traced (d.bind f) events o ↔ (∃ s, o = .waiting s ∧ Traced d events (.waiting s)) ∨
      ∃ s a first second, events = first ++ second ∧ Traced d first (.finished s a) ∧
        Traced (f s a) second o :=
  traced_follow

/-- A trace of an operation on a larger state. -/
theorem traced_within {τ : Type} {d : Dialogue Q A σ α} {whole : σ → τ} {o : Outcome τ α} :
    Traced (d.within whole) events o ↔
      ∃ part : Outcome σ α, o = part.within whole ∧ Traced d events part := by
  rw [within, traced_follow]
  constructor
  · rintro (⟨s, rfl, h⟩ | ⟨s, a, first, second, rfl, hfirst, hsecond⟩)
    · exact ⟨.waiting s, rfl, h⟩
    · obtain ⟨rfl, rfl⟩ := traced_done.mp hsecond
      rw [List.append_nil]
      exact ⟨.finished s a, rfl, hfirst⟩
  · rintro ⟨part, rfl, h⟩
    cases part with
    | finished s a => exact .inr ⟨s, a, events, [], (List.append_nil events).symm, h, .done _ _⟩
    | waiting s => exact .inl ⟨s, rfl, h⟩

/-- A trace to the end of two operations. -/
theorem traced_follow_finished {τ : Type} {d : Dialogue Q A σ α} {whole : σ → τ}
    {f : σ → α → Dialogue Q A τ β} {t : τ} {b : β} :
    Traced (d.follow whole f) events (.finished t b) ↔
      ∃ s a first second, events = first ++ second ∧ Traced d first (.finished s a) ∧
        Traced (f s a) second (.finished t b) := by
  rw [traced_follow]
  constructor
  · rintro (⟨s, hwaiting, -⟩ | h)
    · cases hwaiting
    · exact h
  · exact .inr

/-- A trace to the end of an operation on a larger state. -/
theorem traced_within_finished {τ : Type} {d : Dialogue Q A σ α} {whole : σ → τ} {t : τ} {a : α} :
    Traced (d.within whole) events (.finished t a) ↔
      ∃ s, t = whole s ∧ Traced d events (.finished s a) := by
  rw [traced_within]
  constructor
  · rintro ⟨part, hpart, h⟩
    cases part with
    | finished s a' =>
      obtain ⟨rfl, rfl⟩ := Outcome.finished.inj hpart
      exact ⟨s, rfl, h⟩
    | waiting s => cases hpart
  · rintro ⟨s, rfl, h⟩
    exact ⟨.finished s a, rfl, h⟩

/-- A trace to the end of an operation with another result. -/
theorem traced_map_finished {d : Dialogue Q A σ α} {f : α → β} {s : σ} {b : β} :
    Traced (d.map f) events (.finished s b) ↔ ∃ a, b = f a ∧ Traced d events (.finished s a) := by
  rw [map, bind, traced_follow_finished]
  constructor
  · rintro ⟨s', a, first, second, rfl, hfirst, hsecond⟩
    obtain ⟨rfl, hend⟩ := traced_done.mp hsecond
    obtain ⟨rfl, rfl⟩ := Outcome.finished.inj hend
    exact ⟨a, rfl, by rwa [List.append_nil]⟩
  · rintro ⟨a, rfl, h⟩
    exact ⟨s, a, events, [], (List.append_nil events).symm, h, .done _ _⟩

/-- Where an operation comes that is answered as told; none if it asks otherwise. -/
def follow? [DecidableEq Q] : Dialogue Q A σ α → List (Asked A) → Option (Outcome σ α)
  | .done s a, [] => some (.finished s a)
  | .done _ _, _ :: _ => none
  | .ask _ _ _, [] => none
  | .ask s q k, ⟨q', answer⟩ :: rest =>
    if h : q' = q then
      match answer with
      | some a => (k (h ▸ a)).follow? rest
      | none => if rest.isEmpty then some (.waiting s) else none
    else none

theorem traced_iff_follow? [DecidableEq Q] {d : Dialogue Q A σ α} :
    Traced d events o ↔ d.follow? events = some o := by
  induction d generalizing events with
  | done s a =>
    rw [traced_done]
    cases events with
    | nil => simp [follow?, eq_comm]
    | cons event rest => simp [follow?]
  | ask s q k ih =>
    rw [traced_ask]
    rcases events with _ | ⟨⟨q', answer⟩, rest⟩
    · simp [follow?]
    · rw [follow?]
      by_cases h : q' = q
      · rw [dif_pos h]
        subst h
        cases answer with
        | some a => simp [ih]
        | none =>
          cases rest with
          | nil => simp [eq_comm]
          | cons event rest => simp
      · rw [dif_neg h]
        constructor
        · rintro (⟨heq, -⟩ | ⟨_, _, heq, -⟩) <;>
            exact absurd (congrArg Asked.question (List.cons.inj heq).1) h
        · rintro ⟨⟩

instance [DecidableEq Q] [DecidableEq σ] [DecidableEq α] (d : Dialogue Q A σ α) :
    Decidable (Traced d events o) :=
  decidable_of_iff _ traced_iff_follow?.symm

end Dialogue

open Dialogue (Traced)

/-! ### Operations that talk to the server -/

/-- A request, and the answer if there was one. -/
abbrev Event := Asked Answer

namespace Exchange

variable {σ α β : Type} {view : View} {s : σ} {events : List Event}

/-- How far an operation came that may fail, and the latest view at its end. -/
abbrev Reach (σ α : Type) := Outcome σ (Except ConnectionError α × View)

/-- An operation was begun with a view and a state, and came as far as told. -/
def Made (x : Exchange σ α) (view : View) (s : σ) (events : List Event) (o : Reach σ α) : Prop :=
  Traced (x.start view s) events o

instance [DecidableEq σ] [DecidableEq α] (x : Exchange σ α) (o : Reach σ α) :
    Decidable (x.Made view s events o) :=
  inferInstanceAs (Decidable (Traced _ _ _))

variable {o : Reach σ α}

theorem made_pure {a : α} :
    (pure a : Exchange σ α).Made view s events o ↔ events = [] ∧ o = .finished s (.ok a, view) :=
  Dialogue.traced_done

theorem made_throw {e : ConnectionError} :
    (throw e : Exchange σ α).Made view s events o ↔
      events = [] ∧ o = .finished s (.error e, view) :=
  Dialogue.traced_done

theorem made_modify {f : σ → σ} {o : Reach σ PUnit} :
    (modify f : Exchange σ PUnit).Made view s events o ↔
      events = [] ∧ o = .finished (f s) (.ok ⟨⟩, view) :=
  Dialogue.traced_done

/-- Two operations in a row: the first was abandoned, or it failed, or the second went on with its
result. -/
theorem made_bind {x : Exchange σ α} {f : α → Exchange σ β} {o : Reach σ β} :
    (x >>= f).Made view s events o ↔
      (∃ s', o = .waiting s' ∧ x.Made view s events (.waiting s')) ∨
      (∃ s' e view', o = .finished s' (.error e, view') ∧
        x.Made view s events (.finished s' (.error e, view'))) ∨
      ∃ s' a view' first second, events = first ++ second ∧
        x.Made view s first (.finished s' (.ok a, view')) ∧ (f a).Made view' s' second o := by
  rw [Made, start_bind, Dialogue.traced_bind]
  refine or_congr_right ?_
  constructor
  · rintro ⟨s', ⟨result, view'⟩, first, second, rfl, hfirst, hsecond⟩
    cases result with
    | error e =>
      obtain ⟨rfl, rfl⟩ := Dialogue.traced_done.mp hsecond
      exact .inl ⟨s', e, view', rfl, by rwa [List.append_nil]⟩
    | ok a => exact .inr ⟨s', a, view', first, second, rfl, hfirst, hsecond⟩
  · rintro (⟨s', e, view', rfl, h⟩ | ⟨s', a, view', first, second, rfl, hfirst, hsecond⟩)
    · exact ⟨s', _, events, [], (List.append_nil _).symm, h, .done _ _⟩
    · exact ⟨s', _, first, second, rfl, hfirst, hsecond⟩

/-! ### Beginnings -/

section Beginnings

variable {o : Reach σ β}

theorem made_pure_bind {a : α} {f : α → Exchange σ β} :
    (pure a >>= f).Made view s events o ↔ (f a).Made view s events o :=
  Iff.rfl

theorem made_view_bind {f : View → Exchange σ β} :
    (Exchange.view >>= f).Made view s events o ↔ (f view).Made view s events o :=
  Iff.rfl

theorem made_get_bind {f : σ → Exchange σ β} :
    (get >>= f).Made view s events o ↔ (f s).Made view s events o :=
  Iff.rfl

theorem made_modify_bind {g : σ → σ} {f : PUnit → Exchange σ β} :
    ((modify g : Exchange σ PUnit) >>= f).Made view s events o ↔
      (f ⟨⟩).Made view (g s) events o :=
  Iff.rfl

theorem made_ok_bind {a : α} {f : α → Exchange σ β} :
    (ofExcept (.ok a) >>= f).Made view s events o ↔ (f a).Made view s events o :=
  Iff.rfl

theorem made_error_bind {e : ConnectionError} {f : α → Exchange σ β} :
    (ofExcept (.error e) >>= f).Made view s events o ↔
      events = [] ∧ o = .finished s (.error e, view) :=
  Dialogue.traced_done

theorem made_request_bind {q : Request} {f : Except LinkError q.Reply → Exchange σ β} :
    (request q >>= f).Made view s events o ↔ events = [⟨q, none⟩] ∧ o = .waiting s ∨
      ∃ (answer : Answer q) (rest : List Event), events = ⟨q, some answer⟩ :: rest ∧
        (f answer.reply).Made answer.view s rest o :=
  Dialogue.traced_ask

end Beginnings

end Exchange

end TypedSql
