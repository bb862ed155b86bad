/-
Cool-down: a failed attempt stands for a while. Within the window after it, calls report the same
failure and attempt nothing; the first call after the window attempts again. Times are in
nanoseconds.

Main statements: `run_ran_iff` (an attempt is made exactly when no failure stands) and
`run_of_stands` (a call within the window does not extend it).
-/

namespace TypedSql

/-- The window after a failure, and the last failure with the time at which it was recorded. -/
structure Cooldown (ε : Type) where
  window : Nat
  failure : Option (Nat × ε) := none
  deriving DecidableEq, Repr

/-- An attempt: how it ends, and when. -/
structure Attempt (ε α : Type) where
  finish : Nat
  outcome : Except ε α

/-- What a call made of an attempt. -/
structure CooldownRun (ε α : Type) where
  /-- Whether the attempt was made. -/
  ran : Bool
  outcome : Except ε α
  after : Cooldown ε

namespace Cooldown

variable {ε α : Type}

/-- The failure that stands at a time. -/
def standing? (c : Cooldown ε) (now : Nat) : Option ε :=
  match c.failure with
  | some (time, e) => if now - time < c.window then some e else none
  | none => none

/-- Forgets the failure. -/
def reset (c : Cooldown ε) : Cooldown ε :=
  { c with failure := none }

/-- Notes at a time how an attempt ended: a failure is recorded, a success clears the record. -/
def settle (c : Cooldown ε) (now : Nat) : Except ε α → Cooldown ε
  | .ok _ => c.reset
  | .error e => { c with failure := some (now, e) }

/-- A call at a time: makes the attempt unless a failure stands. -/
def run (c : Cooldown ε) (now : Nat) (attempt : Attempt ε α) : CooldownRun ε α :=
  match c.standing? now with
  | some e => ⟨false, .error e, c⟩
  | none => ⟨true, attempt.outcome, c.settle attempt.finish attempt.outcome⟩

/-! ### Laws -/

theorem run_ran_iff {c : Cooldown ε} {now : Nat} {attempt : Attempt ε α} :
    (c.run now attempt).ran = true ↔ c.standing? now = none := by
  unfold run
  split <;> simp_all

theorem run_of_stands {c : Cooldown ε} {now : Nat} {e : ε} (attempt : Attempt ε α)
    (h : c.standing? now = some e) : c.run now attempt = ⟨false, .error e, c⟩ := by
  simp [run, h]

@[simp] theorem standing?_reset (c : Cooldown ε) (now : Nat) : c.reset.standing? now = none := rfl

@[simp] theorem window_settle (c : Cooldown ε) (now : Nat) (r : Except ε α) :
    (c.settle now r).window = c.window := by
  cases r <;> rfl

end Cooldown

end TypedSql
