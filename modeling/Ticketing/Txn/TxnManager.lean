import Ticketing.Common.Types
import Mathlib.Logic.Function.Basic
import Mathlib.Data.List.FinRange

/-!
# Transaction manager (`server/txn/txn_manager.c`)

The manager is an array of `MAX_ACTIVE_TXNS` slots and a counter.  Every function below is one
critical section of `tm->mutex`; `txn_lock` is cut at the blocking `lock_mgr_lock` call into
`txnLockCheck` and `txnLockRegister`, and a commit whose log write or flush fails leaves the
section and calls `txn_abort`, so the two are separate sections as well.

A slot with `active = 0` is `none`: the source clears `active` together with `state`, so an active
slot is always in state `TXN_ACTIVE`.
-/

set_option autoImplicit false

namespace Ticketing

/-- `held_lock_t`: the record a lock is about. -/
structure LockKey where
  table : TableId
  record : Nat
  deriving DecidableEq, Repr

/-- An active `txn_t`. -/
structure Txn where
  id : UInt32
  locks : List LockKey
  deriving DecidableEq, Repr

/-- `txn_manager_t`, without the lock manager and log it points to. -/
structure TxnManager where
  txns : Fin MAX_ACTIVE_TXNS → Option Txn
  nextTxnId : UInt32

/-- `txn_mgr_create`. -/
def txnMgrCreate : TxnManager := ⟨fun _ => none, 1⟩

namespace TxnManager

/-- The first slot with a given property. -/
def firstSlot (tm : TxnManager) (p : Option Txn → Bool) : Option (Fin MAX_ACTIVE_TXNS) :=
  (List.finRange MAX_ACTIVE_TXNS).find? (fun i => p (tm.txns i))

theorem firstSlot_some {tm : TxnManager} {p : Option Txn → Bool} {i : Fin MAX_ACTIVE_TXNS}
    (h : tm.firstSlot p = some i) : p (tm.txns i) = true := by
  have := List.find?_some h
  exact this

theorem firstSlot_none {tm : TxnManager} {p : Option Txn → Bool} (h : tm.firstSlot p = none)
    (i : Fin MAX_ACTIVE_TXNS) : p (tm.txns i) = false := by
  have := List.find?_eq_none.mp h i (List.mem_finRange i)
  simpa using this

/-- Overwrite one slot. -/
def setSlot (tm : TxnManager) (i : Fin MAX_ACTIVE_TXNS) (t : Option Txn) : TxnManager :=
  { tm with txns := Function.update tm.txns i t }

@[simp] theorem setSlot_same (tm : TxnManager) (i : Fin MAX_ACTIVE_TXNS) (t : Option Txn) :
    (tm.setSlot i t).txns i = t := by
  simp [setSlot]

@[simp] theorem setSlot_ne {tm : TxnManager} {i j : Fin MAX_ACTIVE_TXNS} {t : Option Txn}
    (h : j ≠ i) : (tm.setSlot i t).txns j = tm.txns j := by
  simp [setSlot, h]

@[simp] theorem setSlot_next (tm : TxnManager) (i : Fin MAX_ACTIVE_TXNS) (t : Option Txn) :
    (tm.setSlot i t).nextTxnId = tm.nextTxnId := rfl

/-- Some slot is in use under this id. -/
def Active (tm : TxnManager) (id : UInt32) : Prop := ∃ i t, tm.txns i = some t ∧ t.id = id

/-- No two slots in use share an id. -/
def DistinctIds (tm : TxnManager) : Prop :=
  ∀ i j t u, tm.txns i = some t → tm.txns j = some u → t.id = u.id → i = j

end TxnManager

/-- `find_txn_locked`. -/
def findTxnLocked (tm : TxnManager) (id : UInt32) : Option (Fin MAX_ACTIVE_TXNS) :=
  tm.firstSlot (fun s => s.any (fun t => t.id == id))

theorem findTxnLocked_some {tm : TxnManager} {id : UInt32} {i : Fin MAX_ACTIVE_TXNS}
    (h : findTxnLocked tm id = some i) : ∃ t, tm.txns i = some t ∧ t.id = id := by
  have := TxnManager.firstSlot_some h
  cases ht : tm.txns i with
  | none => rw [ht] at this; simp at this
  | some t => rw [ht] at this; exact ⟨t, rfl, by simpa using this⟩

theorem findTxnLocked_none {tm : TxnManager} {id : UInt32} (h : findTxnLocked tm id = none) :
    ¬ tm.Active id := by
  rintro ⟨i, t, ht, rfl⟩
  have := TxnManager.firstSlot_none h i
  rw [ht] at this
  simp at this

theorem findTxnLocked_eq {tm : TxnManager} {id : UInt32} {i : Fin MAX_ACTIVE_TXNS} {t : Txn}
    (ht : tm.txns i = some t) (hid : t.id = id)
    (huniq : ∀ j u, tm.txns j = some u → u.id = id → j = i) : findTxnLocked tm id = some i := by
  cases hf : findTxnLocked tm id with
  | none => exact absurd ⟨i, t, ht, hid⟩ (findTxnLocked_none hf)
  | some j =>
    obtain ⟨u, hu, huid⟩ := findTxnLocked_some hf
    rw [huniq j u hu huid]

/-! ## Begin -/

/-- `next_txn_id++`, stepping over `INVALID_TXN_ID` on wrap-around. -/
def bumpTxnId (n : UInt32) : UInt32 := if n + 1 = INVALID_TXN_ID then 1 else n + 1

theorem bumpTxnId_toNat (n : UInt32) : (bumpTxnId n).toNat = n.toNat % (2 ^ 32 - 1) + 1 := by
  have hlt := n.toNat_lt
  unfold bumpTxnId
  split
  · rename_i h
    have h0 : (n + 1).toNat = 0 := by rw [h]; rfl
    rw [UInt32.toNat_add] at h0
    have hone : (1 : UInt32).toNat = 1 := rfl
    rw [hone] at h0 ⊢
    omega
  · rename_i h
    have h0 : (n + 1).toNat ≠ 0 := by
      intro h0
      exact h (UInt32.toNat_inj.mp h0)
    rw [UInt32.toNat_add] at h0 ⊢
    have hone : (1 : UInt32).toNat = 1 := rfl
    rw [hone] at h0 ⊢
    omega

theorem bumpTxnId_ne (n : UInt32) : bumpTxnId n ≠ INVALID_TXN_ID := by
  unfold bumpTxnId
  split
  · decide
  · assumption

/-- `txn_begin`.  It reads the id it returns from the slot after its section; that is the id it stored, as
nobody can end a transaction whose id has not been returned yet. -/
def txnBegin (tm : TxnManager) : UInt32 × TxnManager :=
  match tm.firstSlot Option.isNone with
  | none => (INVALID_TXN_ID, tm)
  | some i =>
    (tm.nextTxnId,
      { tm.setSlot i (some ⟨tm.nextTxnId, []⟩) with nextTxnId := bumpTxnId tm.nextTxnId })

/-! ## Commit and abort -/

/-- The locks a slot would release. -/
def TxnManager.locksAt (tm : TxnManager) (i : Fin MAX_ACTIVE_TXNS) : List LockKey :=
  match tm.txns i with
  | none => []
  | some t => t.locks

/-- How the critical section of `txn_commit` ends. -/
inductive CommitOutcome where
  /-- Not found: return `-1`. -/
  | refused
  /-- The log write or the flush failed: `txn_abort` follows, then `-1`. -/
  | failed
  /-- Committed: these locks are released, then `0`. -/
  | committed (locks : List LockKey)
  deriving DecidableEq, Repr

/-- The section of `txn_commit`, given whether the COMMIT record was appended and flushed. -/
def txnCommitSection (tm : TxnManager) (id : UInt32) (logged flushed : Bool) :
    CommitOutcome × TxnManager :=
  match findTxnLocked tm id with
  | none => (.refused, tm)
  | some i =>
    if !logged then (.failed, tm)
    else if !flushed then (.failed, tm)
    else (.committed (tm.locksAt i), tm.setSlot i none)

/-- The section of `txn_abort`: the locks to release, or `none` when the id is not active. -/
def txnAbortSection (tm : TxnManager) (id : UInt32) : Option (List LockKey) × TxnManager :=
  match findTxnLocked tm id with
  | none => (none, tm)
  | some i => (some (tm.locksAt i), tm.setSlot i none)

/-! ## Locking -/

/-- How the first section of `txn_lock` ends. -/
inductive LockCheck where
  /-- Not active, or no room for another lock: return `-1`. -/
  | refused
  /-- Already registered: return `0`. -/
  | held
  /-- Go on to `lock_mgr_lock`. -/
  | acquire
  deriving DecidableEq, Repr

/-- The first section of `txn_lock`. -/
def txnLockCheck (tm : TxnManager) (id : UInt32) (key : LockKey) : LockCheck :=
  match findTxnLocked tm id with
  | none => .refused
  | some i =>
    if key ∈ tm.locksAt i then .held
    else if MAX_LOCKS_PER_TXN ≤ (tm.locksAt i).length then .refused
    else .acquire

/-- The second section of `txn_lock`: register the lock just acquired; `none` when the
transaction ended in the meantime. -/
def txnLockRegister (tm : TxnManager) (id : UInt32) (key : LockKey) : Option TxnManager :=
  match findTxnLocked tm id with
  | none => none
  | some i => some (tm.setSlot i (some ⟨id, tm.locksAt i ++ [key]⟩))

/-! ## What the sections do to the active ids -/

namespace TxnManager

theorem setSlot_none_active {tm : TxnManager} {i : Fin MAX_ACTIVE_TXNS} {id : UInt32}
    (h : (tm.setSlot i none).Active id) : tm.Active id := by
  obtain ⟨j, t, ht, hid⟩ := h
  by_cases hj : j = i
  · subst hj; simp at ht
  · rw [setSlot_ne hj] at ht
    exact ⟨j, t, ht, hid⟩

theorem setSlot_none_distinct {tm : TxnManager} (hd : tm.DistinctIds) (i : Fin MAX_ACTIVE_TXNS) :
    (tm.setSlot i none).DistinctIds := by
  intro j k t u hj hk htu
  have hji : j ≠ i := by rintro rfl; simp at hj
  have hki : k ≠ i := by rintro rfl; simp at hk
  rw [setSlot_ne hji] at hj
  rw [setSlot_ne hki] at hk
  exact hd j k t u hj hk htu

/-- When ids are distinct, freeing the slot of `id` ends `id`. -/
theorem setSlot_none_ends {tm : TxnManager} (hd : tm.DistinctIds) {i : Fin MAX_ACTIVE_TXNS}
    {id : UInt32} (h : findTxnLocked tm id = some i) : ¬ (tm.setSlot i none).Active id := by
  rintro ⟨j, u, hu, hid⟩
  obtain ⟨t, ht, hti⟩ := findTxnLocked_some h
  by_cases hj : j = i
  · subst hj; simp at hu
  · rw [setSlot_ne hj] at hu
    exact hj (hd j i u t hu ht (by rw [hid, hti]))

/-- Replacing a transaction by one of the same id. -/
theorem setSlot_some_active {tm : TxnManager} {i : Fin MAX_ACTIVE_TXNS} {t t' : Txn}
    (ht : tm.txns i = some t) (hid : t'.id = t.id) {id : UInt32} :
    (tm.setSlot i (some t')).Active id ↔ tm.Active id := by
  constructor
  · rintro ⟨j, u, hu, rfl⟩
    by_cases hj : j = i
    · subst hj
      rw [setSlot_same, Option.some.injEq] at hu
      subst hu
      exact ⟨j, t, ht, hid.symm⟩
    · rw [setSlot_ne hj] at hu
      exact ⟨j, u, hu, rfl⟩
  · rintro ⟨j, u, hu, rfl⟩
    by_cases hj : j = i
    · subst hj
      rw [ht, Option.some.injEq] at hu
      subst hu
      exact ⟨j, t', by simp, hid⟩
    · exact ⟨j, u, by rw [setSlot_ne hj]; exact hu, rfl⟩

theorem setSlot_some_distinct {tm : TxnManager} (hd : tm.DistinctIds) {i : Fin MAX_ACTIVE_TXNS}
    {t' : Txn} (hfresh : ∀ j u, j ≠ i → tm.txns j = some u → u.id ≠ t'.id) :
    (tm.setSlot i (some t')).DistinctIds := by
  intro j k u v hj hk huv
  by_cases hji : j = i
  · by_cases hki : k = i
    · rw [hji, hki]
    · subst hji
      rw [setSlot_same, Option.some.injEq] at hj
      rw [setSlot_ne hki] at hk
      exact absurd (by rw [hj, huv]) (hfresh k v hki hk)
  · rw [setSlot_ne hji] at hj
    by_cases hki : k = i
    · subst hki
      rw [setSlot_same, Option.some.injEq] at hk
      exact absurd (by rw [hk, huv]) (hfresh j u hji hj)
    · rw [setSlot_ne hki] at hk
      exact hd j k u v hj hk huv

/-! ## What the sections do to the lock lists -/

/-- The locks registered with a transaction; none once it has ended. -/
def locksOf (tm : TxnManager) (id : UInt32) : List LockKey :=
  match findTxnLocked tm id with
  | none => []
  | some i => tm.locksAt i

theorem locksOf_slot {tm : TxnManager} (hd : tm.DistinctIds) {i : Fin MAX_ACTIVE_TXNS} {t : Txn}
    (h : tm.txns i = some t) : tm.locksOf t.id = t.locks := by
  have hf : findTxnLocked tm t.id = some i :=
    findTxnLocked_eq h rfl (fun j u hu hid => hd j i u t hu h hid)
  unfold locksOf locksAt
  simp only [hf, h]

theorem locksOf_inactive {tm : TxnManager} {id : UInt32} (h : ¬ tm.Active id) :
    tm.locksOf id = [] := by
  unfold locksOf
  cases hf : findTxnLocked tm id with
  | none => rfl
  | some i =>
    obtain ⟨t, ht, hid⟩ := findTxnLocked_some hf
    exact absurd ⟨i, t, ht, hid⟩ h

/-- The lock list of an id only depends on the slots in use under it. -/
theorem locksOf_congr {tm tm' : TxnManager} (hd : tm.DistinctIds) (hd' : tm'.DistinctIds)
    {id : UInt32} (h : ∀ i t, t.id = id → (tm.txns i = some t ↔ tm'.txns i = some t)) :
    tm.locksOf id = tm'.locksOf id := by
  by_cases ha : tm.Active id
  · obtain ⟨i, t, ht, rfl⟩ := ha
    rw [locksOf_slot hd ht, locksOf_slot hd' ((h i t rfl).mp ht)]
  · have ha' : ¬ tm'.Active id := by
      rintro ⟨i, t, ht, hid⟩
      exact ha ⟨i, t, (h i t hid).mpr ht, hid⟩
    rw [locksOf_inactive ha, locksOf_inactive ha']

theorem locksOf_free {tm : TxnManager} (hd : tm.DistinctIds) {id : UInt32}
    {i : Fin MAX_ACTIVE_TXNS} (h : findTxnLocked tm id = some i) (id' : UInt32) :
    (tm.setSlot i none).locksOf id' = if id' = id then [] else tm.locksOf id' := by
  obtain ⟨t, ht, hid⟩ := findTxnLocked_some h
  split
  · rename_i heq
    subst heq
    exact locksOf_inactive (setSlot_none_ends hd h)
  · rename_i hne
    refine locksOf_congr (setSlot_none_distinct hd i) hd (fun j u hu => ?_)
    by_cases hj : j = i
    · subst hj
      rw [setSlot_same, ht]
      constructor
      · intro h'
        cases h'
      · intro h'
        cases h'
        exact absurd (by rw [← hu, hid]) hne
    · rw [setSlot_ne hj]

/-- Replacing a transaction by one of the same id keeps the ids distinct. -/
theorem setSlot_update_distinct {tm : TxnManager} (hd : tm.DistinctIds) {i : Fin MAX_ACTIVE_TXNS}
    {t x : Txn} (ht : tm.txns i = some t) (hid : x.id = t.id) :
    (tm.setSlot i (some x)).DistinctIds :=
  setSlot_some_distinct hd
    (fun j u hj hu he => hj (hd j i u t hu ht (by rw [he, hid])))

theorem locksOf_register {tm tm' : TxnManager} (hd : tm.DistinctIds) {id : UInt32}
    {key : LockKey} (h : txnLockRegister tm id key = some tm') (id' : UInt32) :
    tm'.locksOf id' = if id' = id then tm.locksOf id ++ [key] else tm.locksOf id' := by
  unfold txnLockRegister at h
  split at h
  · cases h
  · rename_i i hf
    cases h
    obtain ⟨t, ht, hid⟩ := findTxnLocked_some hf
    have hd' := setSlot_update_distinct (x := ⟨id, tm.locksAt i ++ [key]⟩) hd ht hid.symm
    split
    · rename_i heq
      subst heq
      have hslot : (tm.setSlot i (some ⟨id', tm.locksAt i ++ [key]⟩)).txns i =
          some ⟨id', tm.locksAt i ++ [key]⟩ := setSlot_same _ _ _
      rw [locksOf_slot hd' hslot]
      unfold locksOf
      rw [hf]
    · rename_i hne
      refine locksOf_congr hd' hd (fun j u hu => ?_)
      by_cases hj : j = i
      · subst hj
        rw [setSlot_same, ht]
        constructor
        · intro h'
          cases h'
          exact absurd hu.symm hne
        · intro h'
          cases h'
          exact absurd (by rw [← hu, hid]) hne
      · rw [setSlot_ne hj]

/-- Registering a lock changes no id. -/
theorem txnLockRegister_ids {tm tm' : TxnManager} (hd : tm.DistinctIds) {id : UInt32}
    {key : LockKey} (h : txnLockRegister tm id key = some tm') :
    tm'.DistinctIds ∧ tm'.nextTxnId = tm.nextTxnId ∧ ∀ id', tm'.Active id' ↔ tm.Active id' := by
  unfold txnLockRegister at h
  split at h
  · cases h
  · rename_i i hf
    cases h
    obtain ⟨t, ht, hid⟩ := findTxnLocked_some hf
    exact ⟨setSlot_update_distinct hd ht hid.symm, rfl,
      fun id' => setSlot_some_active ht hid.symm⟩

theorem txnBegin_distinct {tm : TxnManager} (hd : tm.DistinctIds)
    (hfresh : ¬ tm.Active (txnBegin tm).1) : (txnBegin tm).2.DistinctIds := by
  unfold txnBegin at hfresh ⊢
  split
  · exact hd
  · rename_i i hi
    simp only [hi] at hfresh
    exact setSlot_some_distinct hd (fun j u _ hu he => hfresh ⟨j, u, hu, he⟩)

theorem locksOf_begin {tm : TxnManager} (hd : tm.DistinctIds)
    (hfresh : ¬ tm.Active (txnBegin tm).1) (id : UInt32) :
    (txnBegin tm).2.locksOf id = tm.locksOf id := by
  have hd' := txnBegin_distinct hd hfresh
  unfold txnBegin at hfresh hd' ⊢
  cases hf : tm.firstSlot Option.isNone with
  | none => rfl
  | some i =>
    simp only [hf] at hfresh hd' ⊢
    by_cases hid : id = tm.nextTxnId
    · subst hid
      rw [locksOf_inactive hfresh]
      exact locksOf_slot (i := i) (t := ⟨tm.nextTxnId, []⟩) hd' (setSlot_same _ _ _)
    · have hfree : tm.txns i = none := by simpa using firstSlot_some hf
      refine locksOf_congr hd' hd (fun j u hu => ?_)
      show (tm.setSlot i _).txns j = some u ↔ _
      by_cases hj : j = i
      · subst hj
        rw [setSlot_same, hfree]
        constructor
        · intro h'
          cases h'
          exact absurd hu.symm hid
        · intro h'
          cases h'
      · rw [setSlot_ne hj]

/-- The ids after `txn_begin`. -/
theorem txnBegin_active {tm : TxnManager} {id : UInt32} (h : (txnBegin tm).2.Active id) :
    tm.Active id ∨ id = tm.nextTxnId ∧ id = (txnBegin tm).1 := by
  unfold txnBegin at h ⊢
  cases hf : tm.firstSlot Option.isNone with
  | none =>
    simp only [hf] at h
    exact Or.inl h
  | some i =>
    simp only [hf] at h ⊢
    obtain ⟨j, t, ht, rfl⟩ := h
    have ht' : (tm.setSlot i (some ⟨tm.nextTxnId, []⟩)).txns j = some t := ht
    by_cases hj : j = i
    · subst hj
      rw [setSlot_same] at ht'
      cases ht'
      exact Or.inr ⟨rfl, rfl⟩
    · rw [setSlot_ne hj] at ht'
      exact Or.inl ⟨j, t, ht', rfl⟩

end TxnManager

/-- The lock that `txn_lock` goes on to acquire fits in the transaction's list. -/
theorem txnLockCheck_room {tm : TxnManager} {id : UInt32} {key : LockKey}
    (h : txnLockCheck tm id key = .acquire) : (tm.locksOf id).length < MAX_LOCKS_PER_TXN := by
  unfold txnLockCheck at h
  unfold TxnManager.locksOf
  cases hf : findTxnLocked tm id with
  | none => simp [hf] at h
  | some i =>
    simp only [hf] at h ⊢
    split at h
    · cases h
    · split at h
      · cases h
      · omega

theorem txnLockCheck_held {tm : TxnManager} {id : UInt32} {key : LockKey}
    (h : txnLockCheck tm id key = .held) : key ∈ tm.locksOf id := by
  unfold txnLockCheck at h
  unfold TxnManager.locksOf
  cases hf : findTxnLocked tm id with
  | none => simp [hf] at h
  | some i =>
    simp only [hf] at h ⊢
    split at h
    · assumption
    · split at h <;> cases h

theorem txnCommitSection_committed {tm tm' : TxnManager} {id : UInt32} {logged flushed : Bool}
    {keys : List LockKey} (h : txnCommitSection tm id logged flushed = (.committed keys, tm')) :
    ∃ i, findTxnLocked tm id = some i ∧ keys = tm.locksAt i ∧ tm' = tm.setSlot i none := by
  unfold txnCommitSection at h
  split at h
  · simp at h
  · rename_i i hf
    split at h
    · simp at h
    · split at h
      · simp at h
      · simp only [Prod.mk.injEq, CommitOutcome.committed.injEq] at h
        exact ⟨i, hf, h.1.symm, h.2.symm⟩

end Ticketing
