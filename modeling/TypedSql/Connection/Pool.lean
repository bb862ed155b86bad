/-
A pool: connections that read and connections that write. Each role has a rotation of its own, which
hands out its members in turn.

Main statement: `ofStore_isOk_iff` (a pool is made exactly of settings that give each role a
member).
-/
import TypedSql.Connection.Basic

namespace TypedSql

/-- The members of a role. There is at least one. -/
structure Rotation where
  members : List Connection
  /-- The number of turns so far, modulo 2 to the 64. -/
  turns : UInt64
  members_pos : 0 < members.length

namespace Rotation

/-- As many unopened connections as asked for. -/
def ofStore (store : Store) (count : Nat) (h : 0 < count) : Rotation where
  members := List.replicate count (Connection.ofStore store)
  turns := 0
  members_pos := by simpa using h

/-- The member whose turn it is. -/
def nextIndex (r : Rotation) : Fin r.members.length :=
  ⟨r.turns.toNat % r.members.length, Nat.mod_lt _ r.members_pos⟩

/-- The rotation after a turn. -/
def advance (r : Rotation) : Rotation :=
  { r with turns := r.turns + 1 }

/-- The rotation with a member in place of an old one. -/
def put (r : Rotation) (index : Nat) (c : Connection) : Rotation where
  members := r.members.set index c
  turns := r.turns
  members_pos := by simpa using r.members_pos

/-- The rotation with other members, of which there is at least one. -/
def withMembers (r : Rotation) (members : List Connection) : Rotation :=
  if h : 0 < members.length then { r with members, members_pos := h } else r

/-- An operation of the member whose turn it is. -/
def onNext {α : Type} (operation : Exchange Connection α) : Exchange Rotation α :=
  Exchange.ofStart fun view r =>
    (operation.start view r.members[r.nextIndex]).within (r.advance.put r.nextIndex)

end Rotation

/-- The two roles. -/
inductive Role where
  | reader
  | writer
  deriving DecidableEq, Repr

/-- Connections that read and connections that write. -/
structure Pool where
  readers : Rotation
  writers : Rotation

namespace Pool

/-- A pool of unopened connections, as the current settings ask for. -/
def ofStore (store : Store) : Except SettingsError Pool :=
  let settings := store.current
  if hr : settings.readPoolSize = 0 then .error (.invalid Settings.readPoolSizeVariable "0")
  else if hw : settings.writePoolSize = 0 then .error (.invalid Settings.writePoolSizeVariable "0")
  else .ok {
    readers := .ofStore store settings.readPoolSize.toNat (by
      rw [Nat.pos_iff_ne_zero]
      exact fun h => hr (UInt64.toNat_inj.1 h))
    writers := .ofStore store settings.writePoolSize.toNat (by
      rw [Nat.pos_iff_ne_zero]
      exact fun h => hw (UInt64.toNat_inj.1 h)) }

/-- The members of a role. -/
def rotation (p : Pool) : Role → Rotation
  | .reader => p.readers
  | .writer => p.writers

/-- The pool with other members of a role. -/
def withRotation (p : Pool) (role : Role) (r : Rotation) : Pool :=
  match role with
  | .reader => { p with readers := r }
  | .writer => { p with writers := r }

/-- An operation of the member of a role whose turn it is. -/
def onNext {α : Type} (role : Role) (operation : Exchange Connection α) : Exchange Pool α :=
  Exchange.ofStart fun view p =>
    ((Rotation.onNext operation).start view (p.rotation role)).within (p.withRotation role)

/-- Runs a statement on the next reader and gives its rows. -/
def queryRows (text : String) : Exchange Pool (List TextRow) :=
  onNext .reader (Connection.queryRows text)

/-- Runs a statement on the next writer and gives the number of rows that it changed. -/
def execute (text : String) : Exchange Pool UInt64 :=
  onNext .writer (Connection.execute text)

/-- The earlier one of two failures. -/
def firstFailure (a b : Except ConnectionError Unit) : Except ConnectionError Unit :=
  match a with
  | .ok () => b
  | .error e => .error e

/-- Closes connections one after the other, also after a failure; gives the first failure. -/
def closeAll : List Connection → View →
    Dialogue Request Answer (List Connection) (Except ConnectionError Unit × View)
  | [], view => .done [] (.ok (), view)
  | c :: rest, view =>
    (Connection.close.start view c).follow (· :: rest) fun c (first, view) =>
      ((closeAll rest view).within (c :: ·)).map fun (others, view) =>
        (firstFailure first others, view)

/-- Closes the members of a role. -/
def closeRole (role : Role) : Exchange Pool (Except ConnectionError Unit) :=
  Exchange.ofStart fun view p =>
    let r := p.rotation role
    let whole (members : List Connection) : Pool := p.withRotation role (r.withMembers members)
    ((closeAll r.members view).within whole).map fun (outcome, view) => (.ok outcome, view)

/-- Closes every connection, readers first; gives the first failure. -/
def close : Exchange Pool Unit := do
  let readers ← closeRole .reader
  let writers ← closeRole .writer
  Exchange.ofExcept (firstFailure readers writers)

/-! ### Laws -/

theorem members_ofStore {store : Store} {p : Pool} (h : ofStore store = .ok p) (role : Role) :
    ∀ c ∈ (p.rotation role).members, c = Connection.ofStore store := by
  simp only [ofStore] at h
  split at h <;> try contradiction
  split at h <;> try contradiction
  cases h
  cases role <;> simp [rotation, Rotation.ofStore]

/-- The settings of a pool are those that `Settings.validate` admits. -/
theorem ofStore_isOk_iff {store : Store} :
    (∃ p, ofStore store = .ok p) ↔ store.current.validate = .ok () := by
  by_cases hr : store.current.readPoolSize = 0
  · simp [ofStore, Settings.validate, hr]
  · by_cases hw : store.current.writePoolSize = 0 <;>
      simp [ofStore, Settings.validate, hr, hw]

end Pool

end TypedSql
