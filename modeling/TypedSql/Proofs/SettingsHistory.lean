/-
Histories of live settings.

A store is shared by any number of handles, each of them a clone of an earlier one, and by the
subscriptions that were taken out through them (`SharedStore`). Steps go through any handle and any
subscription, in any order (`SharedStore.History`).

* `History.tracks` — a subscription reports a change exactly when a value was written, since it was
  taken out or last taken, that differed from the one that was there (`Unseen`);
* `History.settings_follow` — so each step gives what the steps before it tell, and a take clears
  its own subscription only (`SharedStore.Follows`).
-/
import Mathlib
import TypedSql.Settings.Store

namespace TypedSql

/-- Something that is done with a store, through a handle or a subscription by its number. -/
inductive StoreStep where
  | clone (handle : Nat)
  | current (handle : Nat)
  | update (handle : Nat) (settings : Settings)
  | updateConnectionString (handle : Nat) (connectionString : String)
  | subscribe (handle : Nat)
  | hasChanged (sub : Nat)
  /-- Looks at the settings. -/
  | peek (sub : Nat)
  /-- Looks at the settings and has then seen every change so far. -/
  | take (sub : Nat)
  deriving DecidableEq, Repr

/-- What a step gives. -/
inductive StoreReply where
  | done
  | settings (settings : Settings)
  | changed (changed : Bool)
  deriving DecidableEq, Repr

/-- A store, the number of handles to it, and the subscriptions in the order of their numbers. -/
structure SharedStore where
  store : Store
  handles : Nat
  subscriptions : List Subscription
  deriving DecidableEq, Repr

namespace SharedStore

/-- A new store and the handle to it. -/
def ofSettings (initial : Settings) : SharedStore :=
  ⟨.ofSettings initial, 1, []⟩

/-- A reply and what is then there, if there is a handle of a number. -/
def through (s : SharedStore) (handle : Nat) (reply : StoreReply) (after : SharedStore) :
    Option (StoreReply × SharedStore) :=
  if handle < s.handles then some (reply, after) else none

/-- What a step gives and leaves behind, if there is the handle or subscription that it names. -/
def perform (s : SharedStore) : StoreStep → Option (StoreReply × SharedStore)
  | .clone handle => s.through handle .done { s with handles := s.handles + 1 }
  | .current handle => s.through handle (.settings s.store.current) s
  | .update handle settings => s.through handle .done { s with store := s.store.update settings }
  | .updateConnectionString handle connectionString =>
    s.through handle .done { s with store := s.store.updateConnectionString connectionString }
  | .subscribe handle =>
    s.through handle .done { s with subscriptions := s.subscriptions ++ [s.store.subscribe] }
  | .hasChanged sub => s.subscriptions[sub]?.map fun mark => (.changed (s.store.hasChanged mark), s)
  | .peek sub => s.subscriptions[sub]?.map fun _ => (.settings s.store.current, s)
  | .take sub => s.subscriptions[sub]?.map fun mark => (.settings s.store.current,
      { s with subscriptions := s.subscriptions.set sub (s.store.markSeen mark) })

/-- There is a subscription of a number, and it reports a change. -/
def Pending (s : SharedStore) (sub : Nat) : Prop :=
  ∃ mark, s.subscriptions[sub]? = some mark ∧ s.store.hasChanged mark = true

/-- The steps that were done with a new store, and what is there after them. -/
inductive History (initial : Settings) : List StoreStep → SharedStore → Prop
  | new : History initial [] (ofSettings initial)
  | step {steps : List StoreStep} {s after : SharedStore} {step : StoreStep} {reply : StoreReply}
      (earlier : History initial steps s) (h : s.perform step = some (reply, after)) :
      History initial (steps ++ [step]) after

end SharedStore

/-! ### What the steps tell -/

namespace StoreStep

/-- The settings that a step writes where others are. A connection string leaves the rest. -/
def written? (now : Settings) : StoreStep → Option Settings
  | update _ settings => some settings
  | updateConnectionString _ connectionString => some { now with connectionString }
  | _ => none

/-- Takes out a subscription. -/
def isSubscribe : StoreStep → Bool
  | subscribe _ => true
  | _ => false

/-- Makes another handle. -/
def isClone : StoreStep → Bool
  | clone _ => true
  | _ => false

/-- The number of subscriptions that were taken out. -/
def opened (steps : List StoreStep) : Nat :=
  steps.countP isSubscribe

/-- The number of handles that there are. -/
def handles (steps : List StoreStep) : Nat :=
  steps.countP isClone + 1

/-- The settings written last, or the initial ones. -/
def lastWritten (initial : Settings) (steps : List StoreStep) : Settings :=
  steps.foldl (fun now step => (step.written? now).getD now) initial

/-- A step writes settings other than those that are there. -/
def Changes (now : Settings) (step : StoreStep) : Prop :=
  ∃ settings, step.written? now = some settings ∧ settings ≠ now

/-- A change came after a subscription was taken out, and it was not taken since. -/
def Unseen (initial : Settings) (steps : List StoreStep) (sub : Nat) : Prop :=
  ∃ front step behind, steps = front ++ step :: behind ∧ sub < opened front ∧
    step.Changes (lastWritten initial front) ∧ ∀ later ∈ behind, later ≠ .take sub

/-- Names a handle or a subscription that is there after some steps. -/
def Available (steps : List StoreStep) : StoreStep → Prop
  | clone handle | current handle | update handle _ | updateConnectionString handle _
  | subscribe handle => handle < handles steps
  | hasChanged sub | peek sub | take sub => sub < opened steps

/-- A reply is the one that the steps so far tell. -/
def Answers (initial : Settings) (steps : List StoreStep) : StoreStep → StoreReply → Prop
  | current _, reply | peek _, reply | take _, reply =>
    reply = .settings (lastWritten initial steps)
  | hasChanged sub, reply => ∃ changed, reply = .changed changed ∧
    (changed = true ↔ Unseen initial steps sub)
  | clone _, reply | update _ _, reply | updateConnectionString _ _, reply | subscribe _, reply =>
    reply = .done

/-- Only looks at what is there. -/
def Looks : StoreStep → Prop
  | current _ | hasChanged _ | peek _ => True
  | _ => False

variable {initial now : Settings} {steps : List StoreStep} {step : StoreStep} {sub : Nat}

@[simp] theorem opened_concat :
    opened (steps ++ [step]) = opened steps + step.isSubscribe.toNat := by
  cases h : step.isSubscribe <;> simp [opened, h]

@[simp] theorem handles_concat :
    handles (steps ++ [step]) = handles steps + step.isClone.toNat := by
  cases h : step.isClone <;> simp [handles, h]

theorem lastWritten_concat : lastWritten initial (steps ++ [step]) =
    (step.written? (lastWritten initial steps)).getD (lastWritten initial steps) := by
  rw [lastWritten, List.foldl_concat]
  rfl

/-- A change is unseen behind a step if it is the step itself, or if it was unseen before and the
step does not take it. -/
theorem unseen_concat : Unseen initial (steps ++ [step]) sub ↔
    (sub < opened steps ∧ step.Changes (lastWritten initial steps)) ∨
      Unseen initial steps sub ∧ step ≠ .take sub := by
  constructor
  · rintro ⟨front, change, behind, heq, hopened, hchanges, hkept⟩
    -- the change is the step itself, or the step is the last one behind it
    obtain rfl | ⟨rest, last, rfl⟩ := List.eq_nil_or_concat' behind
    · obtain ⟨rfl, hlast⟩ := List.append_inj' heq rfl
      obtain rfl := List.singleton_inj.mp hlast
      exact .inl ⟨hopened, hchanges⟩
    · rw [← List.cons_append, ← List.append_assoc] at heq
      obtain ⟨rfl, hlast⟩ := List.append_inj' heq rfl
      obtain rfl := List.singleton_inj.mp hlast
      rw [List.forall_mem_append] at hkept
      exact .inr ⟨⟨front, change, rest, rfl, hopened, hchanges, hkept.1⟩, hkept.2 step (by simp)⟩
  · rintro (⟨hopened, hchanges⟩ | ⟨⟨front, change, rest, rfl, hopened, hchanges, hkept⟩, hlast⟩)
    · exact ⟨steps, step, [], rfl, hopened, hchanges, by simp⟩
    · refine ⟨front, change, rest ++ [step], by simp, hopened, hchanges, ?_⟩
      exact List.forall_mem_append.mpr ⟨hkept, by simpa using hlast⟩

theorem Unseen.lt_opened (h : Unseen initial steps sub) : sub < opened steps := by
  obtain ⟨front, step, behind, rfl, hopened, -, -⟩ := h
  have hmore : opened front ≤ opened (front ++ step :: behind) := by
    unfold opened
    rw [List.countP_append]
    omega
  omega

/-- A step that writes nothing and takes nothing leaves what is unseen. -/
theorem unseen_concat_of_idle (hidle : step.written? (lastWritten initial steps) = none)
    (htake : step ≠ .take sub) :
    Unseen initial (steps ++ [step]) sub ↔ Unseen initial steps sub := by
  have hsame : ¬ step.Changes (lastWritten initial steps) := by
    rintro ⟨settings, hwritten, -⟩
    rw [hidle] at hwritten
    cases hwritten
  rw [unseen_concat]
  tauto

/-- A step that writes leaves nothing to be seen unless it writes something else. -/
theorem unseen_concat_of_written {settings : Settings}
    (hwritten : step.written? (lastWritten initial steps) = some settings)
    (hsub : sub < opened steps) : Unseen initial (steps ++ [step]) sub ↔
      settings ≠ lastWritten initial steps ∨ Unseen initial steps sub := by
  have htake : step ≠ .take sub := by
    rintro rfl
    cases hwritten
  have hchanges : step.Changes (lastWritten initial steps) ↔
      settings ≠ lastWritten initial steps := by
    simp [Changes, hwritten]
  rw [unseen_concat, hchanges]
  tauto

end StoreStep

/-! ### One step -/

namespace Store

variable {s : Store} {settings : Settings} {mark : Subscription}

/-- A change that a subscription has not seen stays unseen, and a written value is one if it differs
from the one that was there. -/
theorem hasChanged_update (hseen : mark.seen ≤ s.version) :
    (s.update settings).hasChanged mark = true ↔
      settings ≠ s.current ∨ s.hasChanged mark = true := by
  by_cases hsame : s.current = settings
  · simp [update, hsame]
  · have hlater : mark.seen ≠ s.version + 1 := by omega
    simp [update, hasChanged, hsame, hlater, Ne.symm hsame]

theorem version_le_update : s.version ≤ (s.update settings).version := by
  unfold update
  split_ifs
  · exact le_rfl
  · exact Nat.le_succ s.version

end Store

namespace SharedStore

open StoreStep

variable {initial : Settings} {steps : List StoreStep} {step : StoreStep} {reply : StoreReply}
  {s after : SharedStore} {sub handle : Nat} {mark : Subscription}

theorem through_eq_some_iff {outcome : StoreReply × SharedStore} :
    s.through handle reply after = some outcome ↔
      handle < s.handles ∧ (reply, after) = outcome := by
  simp [through]

theorem pending_iff (h : s.subscriptions[sub]? = some mark) :
    s.Pending sub ↔ s.store.hasChanged mark = true := by
  simp [Pending, h]

/-- What a shared store tells of the steps that were done with it. -/
structure Tracks (initial : Settings) (steps : List StoreStep) (s : SharedStore) : Prop where
  current_eq : s.store.current = lastWritten initial steps
  handles_eq : s.handles = StoreStep.handles steps
  opened_eq : s.subscriptions.length = opened steps
  /-- A subscription has seen no change that is still to come. -/
  seen_le : ∀ mark ∈ s.subscriptions, mark.seen ≤ s.store.version
  pending_iff : ∀ sub, s.Pending sub ↔ Unseen initial steps sub

/-- A subscription that was taken out is there. -/
theorem Tracks.exists_mark (h : Tracks initial steps s) (hsub : sub < opened steps) :
    ∃ mark, s.subscriptions[sub]? = some mark :=
  ⟨_, List.getElem?_eq_getElem (h.opened_eq.symm ▸ hsub)⟩

theorem Tracks.new : Tracks initial [] (ofSettings initial) := by
  refine ⟨rfl, rfl, rfl, by simp [ofSettings], fun sub => ?_⟩
  constructor
  · rintro ⟨mark, hmark, -⟩
    cases hmark
  · intro hunseen
    exact absurd hunseen.lt_opened (Nat.not_lt_zero sub)

/-- A step after which the same subscriptions stand before the same settings. -/
theorem Tracks.idle (h : Tracks initial steps s) {count : Nat}
    (hidle : step.written? (lastWritten initial steps) = none)
    (hsubscribe : step.isSubscribe = false) (hclone : count = s.handles + step.isClone.toNat)
    (htake : ∀ sub, step ≠ .take sub) :
    Tracks initial (steps ++ [step]) { s with handles := count } where
  current_eq := by rw [lastWritten_concat, hidle]; exact h.current_eq
  handles_eq := by rw [handles_concat, ← h.handles_eq]; exact hclone
  opened_eq := by rw [opened_concat, hsubscribe]; exact h.opened_eq
  seen_le := h.seen_le
  pending_iff sub := (h.pending_iff sub).trans (unseen_concat_of_idle hidle (htake sub)).symm

/-- A step that writes settings. -/
theorem Tracks.update (h : Tracks initial steps s) {settings : Settings}
    (hwritten : step.written? (lastWritten initial steps) = some settings)
    (hsubscribe : step.isSubscribe = false) (hclone : step.isClone = false) :
    Tracks initial (steps ++ [step]) { s with store := s.store.update settings } where
  current_eq := by rw [lastWritten_concat, hwritten]; exact Store.current_update _ _
  handles_eq := by rw [handles_concat, hclone]; exact h.handles_eq
  opened_eq := by rw [opened_concat, hsubscribe]; exact h.opened_eq
  seen_le mark hmark := (h.seen_le mark hmark).trans Store.version_le_update
  pending_iff sub := by
    by_cases hsub : sub < opened steps
    · obtain ⟨mark, hmark⟩ := h.exists_mark hsub
      have hafter : Pending { s with store := s.store.update settings } sub ↔
          (s.store.update settings).hasChanged mark = true := SharedStore.pending_iff hmark
      rw [hafter, Store.hasChanged_update (h.seen_le mark (List.mem_of_getElem? hmark)),
        unseen_concat_of_written hwritten hsub, ← h.pending_iff sub,
        SharedStore.pending_iff hmark, h.current_eq]
    · -- there is no such subscription, before the step and after it
      constructor
      · rintro ⟨mark, hmark, -⟩
        have hlength : sub < s.subscriptions.length := (List.getElem?_eq_some_iff.mp hmark).1
        exact absurd (h.opened_eq ▸ hlength) hsub
      · intro hunseen
        have hopened := hunseen.lt_opened
        rw [opened_concat, hsubscribe] at hopened
        exact absurd hopened hsub

/-- A new subscription has seen every change so far. -/
theorem Tracks.subscribe (h : Tracks initial steps s) :
    Tracks initial (steps ++ [.subscribe handle])
      { s with subscriptions := s.subscriptions ++ [s.store.subscribe] } where
  current_eq := by rw [lastWritten_concat]; exact h.current_eq
  handles_eq := by rw [handles_concat]; exact h.handles_eq
  opened_eq := by rw [opened_concat, ← h.opened_eq]; exact List.length_append
  seen_le := by
    rw [List.forall_mem_append]
    refine ⟨h.seen_le, fun mark hmark => ?_⟩
    obtain rfl := List.mem_singleton.mp hmark
    exact le_rfl
  pending_iff sub := by
    rw [unseen_concat_of_idle rfl (by simp), ← h.pending_iff sub]
    by_cases hsub : sub < s.subscriptions.length
    · simp only [Pending, List.getElem?_append_left hsub]
    · have hnone : s.subscriptions[sub]? = none := List.getElem?_eq_none (Nat.le_of_not_lt hsub)
      constructor
      · rintro ⟨mark, hmark, hchanged⟩
        -- only the new subscription has a number as high as this
        rw [List.getElem?_append_right (Nat.le_of_not_lt hsub)] at hmark
        obtain rfl := List.mem_singleton.mp (List.mem_of_getElem? hmark)
        exact absurd hchanged (by simp)
      · rintro ⟨mark, hmark, -⟩
        rw [hnone] at hmark
        cases hmark

/-- A take clears a subscription and leaves the others. -/
theorem pending_take {j : Nat} (h : s.subscriptions[sub]? = some mark) :
    Pending { s with subscriptions := s.subscriptions.set sub (s.store.markSeen mark) } j ↔
      s.Pending j ∧ j ≠ sub := by
  have hlength : sub < s.subscriptions.length := (List.getElem?_eq_some_iff.mp h).1
  by_cases hj : j = sub
  · subst hj
    simp [Pending, Store.markSeen, hlength]
  · simp [Pending, List.getElem?_set_ne (Ne.symm hj), hj]

theorem Tracks.take (h : Tracks initial steps s) (hmark : s.subscriptions[sub]? = some mark) :
    Tracks initial (steps ++ [.take sub])
      { s with subscriptions := s.subscriptions.set sub (s.store.markSeen mark) } where
  current_eq := by rw [lastWritten_concat]; exact h.current_eq
  handles_eq := by rw [handles_concat]; exact h.handles_eq
  opened_eq := by rw [opened_concat, ← h.opened_eq]; exact List.length_set
  seen_le other hother := by
    obtain hold | rfl := List.mem_or_eq_of_mem_set hother
    · exact h.seen_le other hold
    · exact le_rfl
  pending_iff j := by
    rw [pending_take hmark, h.pending_iff j, unseen_concat]
    have hsame : ¬ (StoreStep.take sub).Changes (lastWritten initial steps) := by
      rintro ⟨settings, hwritten, -⟩
      cases hwritten
    have hother : StoreStep.take sub ≠ .take j ↔ j ≠ sub := by
      simp [eq_comm]
    rw [hother]
    tauto

theorem Tracks.perform (h : Tracks initial steps s) (hstep : s.perform step = some (reply, after)) :
    Tracks initial (steps ++ [step]) after := by
  cases step with
  | clone handle =>
    obtain ⟨-, hafter⟩ := through_eq_some_iff.mp hstep
    obtain ⟨-, rfl⟩ := Prod.mk.inj hafter
    exact h.idle rfl rfl rfl (by simp)
  | current handle =>
    obtain ⟨-, hafter⟩ := through_eq_some_iff.mp hstep
    obtain ⟨-, rfl⟩ := Prod.mk.inj hafter
    exact h.idle rfl rfl rfl (by simp)
  | update handle settings =>
    obtain ⟨-, hafter⟩ := through_eq_some_iff.mp hstep
    obtain ⟨-, rfl⟩ := Prod.mk.inj hafter
    exact h.update rfl rfl rfl
  | updateConnectionString handle connectionString =>
    obtain ⟨-, hafter⟩ := through_eq_some_iff.mp hstep
    obtain ⟨-, rfl⟩ := Prod.mk.inj hafter
    exact h.update (by rw [← h.current_eq]; rfl) rfl rfl
  | subscribe handle =>
    obtain ⟨-, hafter⟩ := through_eq_some_iff.mp hstep
    obtain ⟨-, rfl⟩ := Prod.mk.inj hafter
    exact h.subscribe
  | hasChanged sub | peek sub =>
    obtain ⟨mark, -, hafter⟩ := Option.map_eq_some_iff.mp hstep
    obtain ⟨-, rfl⟩ := Prod.mk.inj hafter
    exact h.idle rfl rfl rfl (by simp)
  | take sub =>
    obtain ⟨mark, hmark, hafter⟩ := Option.map_eq_some_iff.mp hstep
    obtain ⟨-, rfl⟩ := Prod.mk.inj hafter
    exact h.take hmark

/-! ### All steps -/

theorem History.tracks (h : History initial steps s) : Tracks initial steps s := by
  induction h with
  | new => exact .new
  | step earlier hstep ih => exact ih.perform hstep

/-- There is a reply to a step through what is there, and it is the one that the steps so far
tell. -/
theorem Tracks.exists_reply (h : Tracks initial steps s) (havailable : step.Available steps) :
    ∃ reply after, s.perform step = some (reply, after) ∧ step.Answers initial steps reply := by
  cases step with
  | clone handle | update handle _ | updateConnectionString handle _ | subscribe handle =>
    have hhandle : handle < s.handles := h.handles_eq ▸ havailable
    exact ⟨_, _, through_eq_some_iff.mpr ⟨hhandle, rfl⟩, rfl⟩
  | current handle =>
    have hhandle : handle < s.handles := h.handles_eq ▸ havailable
    exact ⟨_, _, through_eq_some_iff.mpr ⟨hhandle, rfl⟩, by rw [h.current_eq]; rfl⟩
  | hasChanged sub =>
    obtain ⟨mark, hmark⟩ := h.exists_mark havailable
    refine ⟨_, _, Option.map_eq_some_iff.mpr ⟨mark, hmark, rfl⟩, _, rfl, ?_⟩
    rw [← h.pending_iff, SharedStore.pending_iff hmark]
  | peek sub | take sub =>
    obtain ⟨mark, hmark⟩ := h.exists_mark havailable
    exact ⟨_, _, Option.map_eq_some_iff.mpr ⟨mark, hmark, rfl⟩, by rw [h.current_eq]; rfl⟩

/-- What is there after some steps and what the next step does. -/
structure Follows (initial : Settings) (steps : List StoreStep) (s : SharedStore) : Prop where
  /-- The settings are those that were written last through any handle. -/
  current_eq : s.store.current = lastWritten initial steps
  /-- A subscription reports a change if and only if there was one since it was taken out or last
  taken. -/
  pending_iff : ∀ sub, s.Pending sub ↔ Unseen initial steps sub
  /-- Each step through a handle or a subscription that is there goes on, with a reply. -/
  answers : ∀ step : StoreStep, step.Available steps → ∃ reply after,
    s.perform step = some (reply, after) ∧ step.Answers initial steps reply ∧
      History initial (steps ++ [step]) after
  /-- A written connection string leaves the other settings. -/
  writes : ∀ handle connectionString reply after,
    s.perform (.updateConnectionString handle connectionString) = some (reply, after) →
      after.store.current = { s.store.current with connectionString }
  /-- Afterwards the subscription that was taken reports no change, and each other one what it
  reported. -/
  clears : ∀ sub reply after, s.perform (.take sub) = some (reply, after) →
    ¬ after.Pending sub ∧ ∀ other, other ≠ sub → (after.Pending other ↔ s.Pending other)
  /-- A look changes nothing. -/
  keeps : ∀ (step : StoreStep) reply after, step.Looks → s.perform step = some (reply, after) →
    after = s

/-- Whatever was done with a store, through any handles and subscriptions: what there is and what
the next step does follow from the steps that were done. -/
theorem History.settings_follow (h : History initial steps s) : Follows initial steps s where
  current_eq := h.tracks.current_eq
  pending_iff := h.tracks.pending_iff
  answers step havailable := by
    obtain ⟨reply, after, hstep, hanswers⟩ := h.tracks.exists_reply havailable
    exact ⟨reply, after, hstep, hanswers, h.step hstep⟩
  writes handle connectionString reply after hstep := by
    obtain ⟨-, hafter⟩ := through_eq_some_iff.mp hstep
    obtain ⟨-, rfl⟩ := Prod.mk.inj hafter
    exact Store.current_update _ _
  clears sub reply after hstep := by
    obtain ⟨mark, hmark, hafter⟩ := Option.map_eq_some_iff.mp hstep
    obtain ⟨-, rfl⟩ := Prod.mk.inj hafter
    refine ⟨fun hpending => ((pending_take hmark).mp hpending).2 rfl, fun other hother => ?_⟩
    rw [pending_take hmark, and_iff_left hother]
  keeps step reply after hlooks hstep := by
    cases step with
    | current handle =>
      obtain ⟨-, hafter⟩ := through_eq_some_iff.mp hstep
      exact (Prod.mk.inj hafter).2.symm
    | hasChanged sub | peek sub =>
      obtain ⟨mark, -, hafter⟩ := Option.map_eq_some_iff.mp hstep
      exact (Prod.mk.inj hafter).2.symm
    | clone _ | update _ _ | updateConnectionString _ _ | subscribe _ | take _ => exact hlooks.elim

/-- Two subscriptions, the first of which is taken, the value that is there written once more
through another handle, then another value and the first one again. -/
theorem settings_follow_changeAndBack :
    let a : Settings := { connectionString := "mysql://localhost/a" }
    let steps : List StoreStep := [.subscribe 0, .clone 0, .update 1 a, .subscribe 1,
      .updateConnectionString 1 "mysql://localhost/b", .update 0 a, .take 0]
    ∃ s, History a steps s ∧ Follows a steps s ∧ lastWritten a steps = a ∧
      Unseen a steps 1 ∧ ¬ Unseen a steps 0 := by
  intro a steps
  have history : History a steps ⟨⟨a, 2⟩, 2, [⟨2⟩, ⟨0⟩]⟩ :=
    .step (.step (.step (.step (.step (.step (.step .new rfl) rfl) rfl) rfl) rfl) rfl) rfl
  have hfollows := history.settings_follow
  refine ⟨_, history, hfollows, rfl, (hfollows.pending_iff 1).mp ⟨_, rfl, rfl⟩, ?_⟩
  rw [← hfollows.pending_iff 0]
  rintro ⟨mark, hmark, hchanged⟩
  cases hmark
  cases hchanged

end SharedStore

end TypedSql
