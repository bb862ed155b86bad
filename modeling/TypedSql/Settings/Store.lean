/-
Live settings. A store holds the current settings and counts their changes; writing the settings
that are already there is no change. A subscription remembers the last change it has seen.

Main statements: `current_update` (a store holds what was written last) and
`hasChanged_update_self` (writing what is there tells nobody).
-/
import TypedSql.Settings.Basic

namespace TypedSql

/-- The current settings and the number of changes so far. -/
structure Store where
  current : Settings
  version : Nat
  deriving DecidableEq, Repr

/-- A view on a store that remembers which change it has seen. -/
structure Subscription where
  seen : Nat
  deriving DecidableEq, Repr

namespace Store

/-- A store that has seen no change. -/
def ofSettings (settings : Settings) : Store :=
  ⟨settings, 0⟩

/-- Writes settings. -/
def update (s : Store) (settings : Settings) : Store :=
  if s.current = settings then s else ⟨settings, s.version + 1⟩

/-- Writes a connection string and leaves the other settings. -/
def updateConnectionString (s : Store) (connectionString : String) : Store :=
  s.update { s.current with connectionString }

/-- A subscription to the changes from now on. -/
def subscribe (s : Store) : Subscription :=
  ⟨s.version⟩

/-- Whether there was a change that a subscription has not seen. -/
def hasChanged (s : Store) (sub : Subscription) : Bool :=
  sub.seen != s.version

/-- A subscription that has seen every change so far. -/
def markSeen (s : Store) (_sub : Subscription) : Subscription :=
  s.subscribe

@[simp] theorem current_update (s : Store) (settings : Settings) :
    (s.update settings).current = settings := by
  by_cases h : s.current = settings <;> simp [update, h]

theorem hasChanged_update_self (s : Store) (sub : Subscription) :
    (s.update s.current).hasChanged sub = s.hasChanged sub := by
  simp [update]

@[simp] theorem hasChanged_subscribe (s : Store) : s.hasChanged s.subscribe = false := by
  simp [hasChanged, subscribe]

end Store

end TypedSql
