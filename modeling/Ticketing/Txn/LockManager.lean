import Ticketing.Txn.TxnManager

/-!
# Lock manager (`server/txn/lock_manager.c`)

A lock entry for every record; a record without an entry in its bucket has the entry that
`create_entry` would make.  `lock_mgr_lock` is one step, taken when the lock is compatible with its
holders: until then the caller sleeps on the condition variable.  `Txn/LockTable` has the chains and
the waiting, `Core/BookingThreads` the booking engine on top of them.
-/

set_option autoImplicit false

namespace Ticketing

/-- The holders recorded in a `lock_entry_t`. -/
structure LockEntry where
  sharedCount : Nat
  exclusiveHeld : Bool
  deriving DecidableEq, Repr

/-- `lock_manager_t`. -/
abbrev LockManager := LockKey → LockEntry

/-- `lock_mgr_create`. -/
def lockMgrCreate : LockManager := fun _ => ⟨0, false⟩

/-- Set or clear `exclusive_held`. -/
def LockManager.setHeld (lm : LockManager) (key : LockKey) (b : Bool) : LockManager :=
  Function.update lm key { lm key with exclusiveHeld := b }

/-- `lock_mgr_lock`; `none` while the caller has to wait. -/
def lockMgrLock (lm : LockManager) (key : LockKey) : LockMode → Option LockManager
  | .shared =>
    if (lm key).exclusiveHeld then none
    else some (Function.update lm key { lm key with sharedCount := (lm key).sharedCount + 1 })
  | .exclusive =>
    if (lm key).exclusiveHeld ∨ 0 < (lm key).sharedCount then none
    else some (lm.setHeld key true)

/-- `lock_mgr_unlock`: the return value and the manager afterwards. -/
def lockMgrUnlock (lm : LockManager) (key : LockKey) : Int × LockManager :=
  if (lm key).exclusiveHeld then (0, lm.setHeld key false)
  else if 0 < (lm key).sharedCount then
    (0, Function.update lm key { lm key with sharedCount := (lm key).sharedCount - 1 })
  else (-1, lm)

@[simp] theorem LockManager.setHeld_same (lm : LockManager) (key : LockKey) (b : Bool) :
    lm.setHeld key b key = { lm key with exclusiveHeld := b } := by
  simp [LockManager.setHeld]

@[simp] theorem LockManager.setHeld_ne {lm : LockManager} {key k : LockKey} {b : Bool}
    (h : k ≠ key) : lm.setHeld key b k = lm k := by
  simp [LockManager.setHeld, h]

end Ticketing
