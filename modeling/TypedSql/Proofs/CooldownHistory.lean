/-
Histories of a cool-down.

Calls come one after the other, each begun when the one before it is over. Their attempts take any
time and end in any way, and there may be resets between them (`History`). A failure is recorded as
long as neither a success nor a reset came since (`Recorded`).

* `History.tracks` — the record holds the latest of these failures; an older one had left its window
  when that one came;
* `History.heeds` — so a call makes its attempt exactly when no recorded failure is within its
  window, and otherwise gives that failure again and changes nothing (`Call.Heeds`).
-/
import Mathlib
import TypedSql.Connection.Cooldown

namespace TypedSql

namespace Cooldown

variable {ε α : Type}

/-! ### What happens to a cool-down -/

/-- A call that was made: when it began, the attempt that it would make, the cool-down that it found
and what came of it. -/
structure Call (ε α : Type) where
  start : Nat
  attempt : Attempt ε α
  before : Cooldown ε
  run : CooldownRun ε α

namespace Call

/-- When a call was over: at the end of its attempt, or at once if it made none. -/
def finish (call : Call ε α) : Nat :=
  if call.run.ran then call.attempt.finish else call.start

/-- A call made its attempt, which failed at a time. -/
def Failed (call : Call ε α) (time : Nat) (e : ε) : Prop :=
  call.run.ran = true ∧ call.attempt = ⟨time, .error e⟩

/-- A call made its attempt, which succeeded. -/
def Succeeded (call : Call ε α) : Prop :=
  call.run.ran = true ∧ ∃ a, call.attempt.outcome = .ok a

end Call

/-- A call on a cool-down. -/
def call (c : Cooldown ε) (start : Nat) (attempt : Attempt ε α) : Call ε α :=
  ⟨start, attempt, c, c.run start attempt⟩

/-- Something that happened to a cool-down. -/
inductive Event (ε α : Type) where
  | called (call : Call ε α)
  | reset

namespace Event

/-- A success or a reset. -/
def Clears : Event ε α → Prop
  | called call => call.Succeeded
  | reset => True

/-- A call that made no attempt. -/
def Passes : Event ε α → Prop
  | called call => call.run.ran = false
  | reset => False

/-- A call that began before a time. -/
def BeginsBefore (time : Nat) : Event ε α → Prop
  | called call => call.start < time
  | reset => False

end Event

/-- What happened up to a time to a cool-down that was new, and what it is then. -/
inductive History (window : Nat) : List (Event ε α) → Nat → Cooldown ε → Prop
  | nil : History window [] 0 { window }
  | called {events : List (Event ε α)} {now : Nat} {c : Cooldown ε}
      (earlier : History window events now c) {start : Nat} {attempt : Attempt ε α}
      (begins : now ≤ start) (lasts : start ≤ attempt.finish) :
      History window (events ++ [.called (c.call start attempt)]) (c.call start attempt).finish
        (c.call start attempt).run.after
  | reset {events : List (Event ε α)} {now : Nat} {c : Cooldown ε}
      (earlier : History window events now c) : History window (events ++ [.reset]) now c.reset

/-- An attempt failed at a time, and neither a success nor a reset came since. -/
def Recorded (events : List (Event ε α)) (time : Nat) (e : ε) : Prop :=
  ∃ front call behind, events = front ++ .called call :: behind ∧ call.Failed time e ∧
    ∀ event ∈ behind, ¬ event.Clears

variable {window now time start : Nat} {c : Cooldown ε} {e : ε} {attempt : Attempt ε α}
  {events : List (Event ε α)} {event : Event ε α} {call : Call ε α}

/-! ### One call -/

theorem standing?_eq_some_iff :
    c.standing? now = some e ↔ ∃ time, c.failure = some (time, e) ∧ now - time < c.window := by
  unfold standing?
  split
  · rename_i time e' hfailure
    split_ifs with hyoung
    · simp only [Option.some.injEq, hfailure, Prod.mk.injEq]
      exact ⟨fun h => ⟨time, ⟨rfl, h⟩, hyoung⟩, fun ⟨_, ⟨_, h⟩, _⟩ => h⟩
    · rw [hfailure]
      constructor
      · intro h
        cases h
      · rintro ⟨time', hsame, h⟩
        obtain ⟨rfl, -⟩ := Prod.mk.inj (Option.some.inj hsame)
        exact absurd h hyoung
  · rename_i hfailure
    simp [hfailure]

theorem standing?_eq_none_iff :
    c.standing? now = none ↔ ∀ time e, c.failure = some (time, e) → c.window ≤ now - time := by
  rw [Option.eq_none_iff_forall_ne_some]
  constructor
  · intro h time e hfailure
    by_contra hyoung
    exact h e (standing?_eq_some_iff.mpr ⟨time, hfailure, by omega⟩)
  · intro h e hstands
    obtain ⟨time, hfailure, hyoung⟩ := standing?_eq_some_iff.mp hstands
    have := h time e hfailure
    omega

/-- A call while a failure stands. -/
theorem call_of_stands (attempt : Attempt ε α) (h : c.standing? start = some e) :
    c.call start attempt = ⟨start, attempt, c, false, .error e, c⟩ := by
  rw [call, run_of_stands attempt h]

/-- A call while none stands. -/
theorem call_of_free (attempt : Attempt ε α) (h : c.standing? start = none) :
    c.call start attempt =
      ⟨start, attempt, c, true, attempt.outcome, c.settle attempt.finish attempt.outcome⟩ := by
  rw [call, run, h]

/-- A call makes its attempt if no failure stands. -/
theorem ran_call_iff : (c.call start attempt).run.ran = true ↔ c.standing? start = none :=
  run_ran_iff

/-- A call that makes no attempt changes nothing. -/
theorem after_of_passes (h : (c.call start attempt).run.ran = false) :
    (c.call start attempt).run.after = c := by
  cases hstands : c.standing? start with
  | none =>
    have hran : (c.call start attempt).run.ran = true := ran_call_iff.mpr hstands
    exact absurd (h.symm.trans hran) Bool.false_ne_true
  | some e => rw [call_of_stands attempt hstands]

/-! ### Recorded failures -/

/-- A failure is recorded behind an event if that event is the failure, or if it was recorded before
and the event does not clear it. -/
theorem recorded_concat : Recorded (events ++ [event]) time e ↔
    (∃ call, event = .called call ∧ call.Failed time e) ∨
      Recorded events time e ∧ ¬ event.Clears := by
  constructor
  · rintro ⟨front, call, behind, heq, hfailed, hkept⟩
    -- the failure is the event itself, or the event is the last one behind it
    obtain rfl | ⟨rest, last, rfl⟩ := List.eq_nil_or_concat' behind
    · obtain ⟨-, hlast⟩ := List.append_inj' heq rfl
      exact .inl ⟨call, List.singleton_inj.mp hlast, hfailed⟩
    · rw [← List.cons_append, ← List.append_assoc] at heq
      obtain ⟨rfl, hlast⟩ := List.append_inj' heq rfl
      obtain rfl := List.singleton_inj.mp hlast
      rw [List.forall_mem_append] at hkept
      exact .inr ⟨⟨front, call, rest, rfl, hfailed, hkept.1⟩, hkept.2 event (by simp)⟩
  · rintro (⟨call, rfl, hfailed⟩ | ⟨⟨front, call, rest, rfl, hfailed, hkept⟩, hlast⟩)
    · exact ⟨events, call, [], rfl, hfailed, by simp⟩
    · refine ⟨front, call, rest ++ [event], by simp, hfailed, ?_⟩
      exact List.forall_mem_append.mpr ⟨hkept, by simpa using hlast⟩

/-- What the record of a cool-down tells of its history. -/
structure Tracks (window : Nat) (events : List (Event ε α)) (now : Nat) (c : Cooldown ε) :
    Prop where
  window_eq : c.window = window
  /-- The record is of a failure in the past. -/
  past : ∀ time e, c.failure = some (time, e) → Recorded events time e ∧ time ≤ now
  /-- Any other recorded failure had left its window when that one came. -/
  latest : ∀ time e, Recorded events time e → ∃ time' e', c.failure = some (time', e') ∧
    (time' = time ∧ e' = e ∨ time + window ≤ time')

/-- No recorded failure is within its window exactly if none stands. -/
theorem Tracks.standing?_eq_none_iff (h : Tracks window events now c) (hstart : now ≤ start) :
    c.standing? start = none ↔ ∀ time e, Recorded events time e → window ≤ start - time := by
  rw [Cooldown.standing?_eq_none_iff, h.window_eq]
  constructor
  · intro hfree time e hrecorded
    obtain ⟨time', e', hfailure, ⟨rfl, rfl⟩ | hold⟩ := h.latest time e hrecorded
    · exact hfree time' e' hfailure
    · -- one that is not in the record had left its window before the call
      have := (h.past time' e' hfailure).2
      omega
  · intro hfree time e hfailure
    exact hfree time e (h.past time e hfailure).1

/-- A recorded failure within its window is the one that stands. -/
theorem Tracks.standing?_eq_some (h : Tracks window events now c) (hstart : now ≤ start)
    (hrecorded : Recorded events time e) (hyoung : start - time < window) :
    c.standing? start = some e := by
  obtain ⟨time', e', hfailure, ⟨rfl, rfl⟩ | hold⟩ := h.latest time e hrecorded
  · exact standing?_eq_some_iff.mpr ⟨time', hfailure, h.window_eq ▸ hyoung⟩
  · have := (h.past time' e' hfailure).2
    omega

theorem Tracks.called (h : Tracks window events now c) (begins : now ≤ start)
    (lasts : start ≤ attempt.finish) :
    Tracks window (events ++ [.called (c.call start attempt)]) (c.call start attempt).finish
      (c.call start attempt).run.after := by
  cases hstands : c.standing? start with
  | some e =>
    -- neither the record changes nor what is recorded
    rw [call_of_stands attempt hstands]
    refine ⟨h.window_eq, fun time e hfailure => ?_, fun time e hrecorded => ?_⟩
    · obtain ⟨hrecorded, hpast⟩ := h.past time e hfailure
      exact ⟨recorded_concat.mpr (.inr ⟨hrecorded, fun hclears => nomatch hclears.1⟩),
        hpast.trans begins⟩
    · obtain ⟨call, heq, hfailed⟩ | ⟨hrecorded, -⟩ := recorded_concat.mp hrecorded
      · cases heq
        exact nomatch hfailed.1
      · exact h.latest time e hrecorded
  | none =>
    have hfree := (h.standing?_eq_none_iff begins).mp hstands
    rw [call_of_free attempt hstands]
    obtain ⟨finish, outcome⟩ := attempt
    cases outcome with
    | ok a =>
      refine ⟨h.window_eq, fun time e hfailure => (nomatch hfailure), fun time e hrecorded => ?_⟩
      obtain ⟨call, heq, hfailed⟩ | ⟨-, hkept⟩ := recorded_concat.mp hrecorded
      · cases heq
        cases hfailed.2
      · exact absurd ⟨rfl, a, rfl⟩ hkept
    | error e' =>
      refine ⟨h.window_eq, fun time e hfailure => ?_, fun time e hrecorded => ?_⟩
      · obtain ⟨rfl, rfl⟩ := Prod.mk.inj (Option.some.inj hfailure)
        exact ⟨recorded_concat.mpr (.inl ⟨_, rfl, rfl, rfl⟩), le_rfl⟩
      · refine ⟨finish, e', rfl, ?_⟩
        obtain ⟨call, heq, hfailed⟩ | ⟨hrecorded, -⟩ := recorded_concat.mp hrecorded
        · cases heq
          cases hfailed.2
          exact .inl ⟨rfl, rfl⟩
        · -- an older failure had left its window when the attempt began
          have hleft : window ≤ start - time := hfree time e hrecorded
          obtain ⟨time', e'', hfailure, hsame⟩ := h.latest time e hrecorded
          have hpast : time' ≤ now := (h.past time' e'' hfailure).2
          have hlasts : start ≤ finish := lasts
          right
          omega

theorem Tracks.reset (h : Tracks window events now c) :
    Tracks window (events ++ [.reset]) now c.reset := by
  refine ⟨h.window_eq, fun time e hfailure => (nomatch hfailure), fun time e hrecorded => ?_⟩
  obtain ⟨call, heq, -⟩ | ⟨-, hkept⟩ := recorded_concat.mp hrecorded
  · cases heq
  · exact absurd trivial hkept

theorem History.tracks (h : History window events now c) : Tracks window events now c := by
  induction h with
  | nil =>
    refine ⟨rfl, fun time e hfailure => (nomatch hfailure), fun time e hrecorded => ?_⟩
    obtain ⟨front, call, behind, heq, -⟩ := hrecorded
    simp at heq
  | called earlier begins lasts ih => exact ih.called begins lasts
  | reset earlier ih => exact ih.reset

/-! ### One call after the other -/

/-- A history that ends with a call. -/
theorem History.last (h : History window (events ++ [.called call]) now c) :
    ∃ now' c' start attempt, History window events now' c' ∧ now' ≤ start ∧
      call = c'.call start attempt ∧ c = call.run.after := by
  generalize hall : events ++ [.called call] = all at h
  cases h with
  | nil => simp at hall
  | called earlier begins lasts =>
    obtain ⟨rfl, hlast⟩ := List.append_inj' hall rfl
    obtain rfl := Event.called.inj (List.singleton_inj.mp hlast)
    exact ⟨_, _, _, _, earlier, begins, rfl, rfl⟩
  | reset earlier =>
    obtain ⟨-, hlast⟩ := List.append_inj' hall rfl
    cases hlast

theorem History.front {later : List (Event ε α)} (h : History window (events ++ later) now c) :
    ∃ now' c', History window events now' c' := by
  -- the induction is from the end, since histories grow there
  induction later using List.reverseRecOn generalizing now c with
  | nil => exact ⟨now, c, by rwa [List.append_nil] at h⟩
  | append_singleton later event ih =>
    rw [← List.append_assoc] at h
    generalize hall : events ++ later ++ [event] = all at h
    cases h with
    | nil => simp at hall
    | called earlier | reset earlier =>
      obtain ⟨rfl, -⟩ := List.append_inj' hall rfl
      exact ih earlier

/-- What was there in front of a call. -/
theorem History.split {later : List (Event ε α)}
    (h : History window (events ++ .called call :: later) now c) :
    ∃ now' c' start attempt, History window events now' c' ∧ now' ≤ start ∧
      call = c'.call start attempt := by
  rw [List.append_cons] at h
  obtain ⟨_, _, hcalled⟩ := h.front
  obtain ⟨now', c', start, attempt, hbefore, begins, hcall, -⟩ := hcalled.last
  exact ⟨now', c', start, attempt, hbefore, begins, hcall⟩

/-- Calls without an attempt leave the failure that was recorded in front of them. -/
theorem Recorded.of_passes {front between : List (Event ε α)} {first : Call ε α}
    (hfailed : first.Failed time e) (hpass : ∀ event ∈ between, event.Passes) :
    Recorded (front ++ .called first :: between) time e := by
  refine ⟨front, first, between, rfl, hfailed, fun event hmem hclears => ?_⟩
  have hpasses := hpass event hmem
  cases event with
  | called call => exact absurd (hpasses.symm.trans hclears.1) Bool.false_ne_true
  | reset => exact hpasses

/-- The failure of an attempt is what the cool-down holds until the next attempt or reset. -/
theorem History.failure_eq {front between : List (Event ε α)} {first : Call ε α}
    (h : History window (front ++ .called first :: between) now c)
    (hfailed : first.Failed time e) (hpass : ∀ event ∈ between, event.Passes) :
    c.failure = some (time, e) := by
  induction between using List.reverseRecOn generalizing now c with
  | nil =>
    obtain ⟨now', c', start, attempt, -, -, rfl, rfl⟩ := h.last
    obtain ⟨hran, hattempt⟩ := hfailed
    obtain rfl : attempt = ⟨time, .error e⟩ := hattempt
    rw [call_of_free _ (ran_call_iff.mp hran)]
    rfl
  | append_singleton between event ih =>
    obtain ⟨hbetween, hlast⟩ := List.forall_mem_append.mp hpass
    rw [← List.cons_append, ← List.append_assoc] at h
    cases event with
    | reset => exact absurd (hlast .reset (by simp)) id
    | called last =>
      -- the last call made no attempt, so it left the failure of the one before it
      obtain ⟨now', c', start, attempt, hbefore, -, rfl, rfl⟩ := h.last
      rw [after_of_passes (hlast (.called _) (by simp))]
      exact ih hbefore hbetween

/-- Calls that begin before the window of a failure ends make no attempt. -/
theorem History.passes {front between : List (Event ε α)} {first : Call ε α}
    (h : History window (front ++ .called first :: between) now c)
    (hfailed : first.Failed time e)
    (hbegin : ∀ event ∈ between, event.BeginsBefore (time + window)) :
    ∀ event ∈ between, event.Passes := by
  induction between using List.reverseRecOn generalizing now c with
  | nil => simp
  | append_singleton between event ih =>
    obtain ⟨hbetween, hlast⟩ := List.forall_mem_append.mp hbegin
    rw [← List.cons_append, ← List.append_assoc] at h
    cases event with
    | reset => exact absurd (hlast .reset (by simp)) id
    | called last =>
      obtain ⟨now', c', start, attempt, hbefore, begins, rfl, -⟩ := h.last
      have hpass := ih hbefore hbetween
      refine List.forall_mem_append.mpr ⟨hpass, ?_⟩
      intro event hmem
      obtain rfl := List.mem_singleton.mp hmem
      -- the window has begun, for the failure is in the past
      have hpast : time ≤ now' :=
        (hbefore.tracks.past time e (hbefore.failure_eq hfailed hpass)).2
      have hyoung : start < time + window :=
        hlast (.called (c'.call start attempt)) (List.mem_singleton_self _)
      have hstands := hbefore.tracks.standing?_eq_some begins
        (Recorded.of_passes hfailed hpass) (by omega)
      show (c'.call start attempt).run.ran = false
      rw [call_of_stands attempt hstands]

/-! ### What a call does -/

/-- How a call goes, by what happened before it. -/
structure Call.Heeds (window : Nat) (earlier : List (Event ε α)) (call : Call ε α) : Prop where
  /-- It makes its attempt if and only if no recorded failure is within its window. -/
  attempts : call.run.ran = true ↔ ¬ ∃ time e, Recorded earlier time e ∧ call.start - time < window
  /-- The outcome of an attempt is what the call gives. -/
  gives : call.run.ran = true → call.run.outcome = call.attempt.outcome
  /-- A recorded failure within its window is what the call gives otherwise, and nothing changes. -/
  repeats : ∀ time e, Recorded earlier time e → call.start - time < window →
    call.run.outcome = .error e ∧ call.run.after = call.before
  /-- If the last attempt failed and there was no reset since, the call makes its attempt if and
  only if the window is over that began at the end of that attempt. -/
  apart : ∀ front first between time e, earlier = front ++ .called first :: between →
    first.Failed time e → (∀ event ∈ between, event.Passes) →
      (call.run.ran = true ↔ time + window ≤ call.start)
  /-- The first call that begins when the window is over makes its attempt. -/
  resumes : ∀ front first between time e, earlier = front ++ .called first :: between →
    first.Failed time e → (∀ event ∈ between, event.BeginsBefore (time + window)) →
      time + window ≤ call.start → call.run.ran = true
  /-- A success clears the record. -/
  clears : call.Succeeded → call.run.after.failure = none

/-- After an attempt that failed and calls without one, a call makes its attempt if and only if the
window is over. -/
theorem History.ran_iff_of_passes {front between : List (Event ε α)} {first : Call ε α}
    (h : History window (front ++ .called first :: between) now c) (begins : now ≤ start)
    (hfailed : first.Failed time e) (hpass : ∀ event ∈ between, event.Passes) :
    (c.call start attempt).run.ran = true ↔ time + window ≤ start := by
  have hfailure := h.failure_eq hfailed hpass
  have hpast : time ≤ now := (h.tracks.past time e hfailure).2
  -- a difference of times is exact, for the failure is in the past
  rw [ran_call_iff, standing?_eq_none_iff, hfailure, h.tracks.window_eq]
  constructor
  · intro hfree
    have hleft := hfree time e rfl
    omega
  · intro hover time' e' hsame
    obtain ⟨rfl, -⟩ := Prod.mk.inj (Option.some.inj hsame)
    omega

/-- Whatever happened to a cool-down, whatever time its attempts took and however they ended, each
call heeds the failures that are recorded. -/
theorem History.heeds {earlier later : List (Event ε α)}
    (h : History window (earlier ++ .called call :: later) now c) : call.Heeds window earlier := by
  obtain ⟨now', c', start, attempt, hbefore, begins, rfl⟩ := h.split
  have hfree := hbefore.tracks.standing?_eq_none_iff begins
  refine ⟨?_, fun hran => ?_, fun time e hrecorded hyoung => ?_, ?_, ?_, ?_⟩
  · rw [ran_call_iff, hfree]
    push Not
    rfl
  · rw [call_of_free attempt (ran_call_iff.mp hran)]
  · have hstands := hbefore.tracks.standing?_eq_some begins hrecorded hyoung
    rw [call_of_stands attempt hstands]
    exact ⟨rfl, rfl⟩
  · rintro front first between time e rfl hfailed hpass
    exact hbefore.ran_iff_of_passes begins hfailed hpass
  · rintro front first between time e rfl hfailed hbegin hover
    exact (hbefore.ran_iff_of_passes begins hfailed (hbefore.passes hfailed hbegin)).mpr hover
  · rintro ⟨hran, a, hsucceeded⟩
    obtain ⟨finish, outcome⟩ := attempt
    obtain rfl : outcome = .ok a := hsucceeded
    rw [call_of_free _ (ran_call_iff.mp hran)]
    rfl

/-- An attempt that fails after a long time, a call at the last moment of its window, and one at the
end of it. -/
theorem heeds_endOfWindow :
    let first : Call String Nat := Cooldown.call { window := 1000 } 0 ⟨600, .error "refused"⟩
    let second := first.run.after.call 1599 ⟨1700, .ok 7⟩
    let third := second.run.after.call 1600 ⟨1700, .ok 7⟩
    third.Heeds 1000 [.called first, .called second] ∧ first.Failed 600 "refused" ∧
      second.run.ran = false ∧ second.run.outcome = .error "refused" ∧
      third.run.ran = true ∧ third.run.outcome = .ok 7 := by
  intro first second third
  have history : History 1000 ([.called first, .called second] ++ .called third :: [])
      third.finish third.run.after :=
    ((History.nil.called (Nat.le_refl 0) (by decide)).called (by decide) (by decide)).called
      (by decide) (by decide)
  exact ⟨history.heeds, ⟨rfl, rfl⟩, rfl, rfl, rfl, rfl⟩

end Cooldown

end TypedSql
