import Ticketing.Core.BookingEngine

/-!
# Calls own their locks

As long as no transaction begins under the id of an active one, the transaction manager keeps one
private lock list per call and the lock manager grants each record to one of them.  The ideal
system says just that: a state is the tables, the calls, and the list of locks each call owns.

* `Ideal`, `Ideal.Step` — the ideal system; `IdealStep` is one step of one call in it.
* `LockInv` — how the slots of the transaction manager and the entries of the lock manager
  represent the lists.
* `Sim.step` — the system simulates the ideal one, faults included.
-/

set_option autoImplicit false

namespace Ticketing

/-! ## The ideal system -/

/-- Tables, calls, and the locks each call owns. -/
structure Ideal where
  db : Db
  procs : Nat → Proc
  own : Nat → List LockKey

/-- The transaction a call is in. -/
def Pc.txn : Pc → Option UInt32
  | .lock _ txn _ => some txn
  | .table txn _ => some txn
  | .commit txn _ => some txn
  | .abort txn _ => some txn
  | _ => none

/-- The transaction a call is in. -/
def Proc.txn : Proc → Option UInt32
  | .running _ pc => pc.txn
  | _ => none

/-- No call owns the record. -/
def Ideal.Free (s : Ideal) (key : LockKey) : Prop := ∀ j, key ∉ s.own j

/-- As many calls are in a transaction as there are slots. -/
def Ideal.Full (s : Ideal) : Prop :=
  ∃ l : List Nat, l.Nodup ∧ l.length = MAX_ACTIVE_TXNS ∧
    ∀ j ∈ l, ∃ txn, (s.procs j).txn = some txn

/-- One step of a call that owns `own`: the tables, its locks and where it goes. -/
inductive IdealStep (c : Call) (env : Env) (free : LockKey → Prop) (full : Prop) (db : Db)
    (own : List LockKey) : Pc → Db → List LockKey → Next → Prop where
  | start {db' : Db} {next : Next} : bookStart c env db = some (db', next) →
      IdealStep c env free full db own .bookStart db' own next
  | beginFull {evt : Option EventRecord} : full →
      IdealStep c env free full db own (.begin evt) db own (.ret .errGeneric none)
  | begin {evt : Option EventRecord} (txn : UInt32) :
      IdealStep c env free full db own (.begin evt) db own (.goto (afterBegin c txn evt))
  | held {txn : UInt32} {site : LockSite} : lockKey c site ∈ own →
      IdealStep c env free full db own (.lock .check txn site) db own (.goto (afterLock c txn site))
  | refused {txn : UInt32} {site : LockSite} : lockKey c site ∉ own →
      MAX_LOCKS_PER_TXN ≤ own.length →
      IdealStep c env free full db own (.lock .check txn site) db own (.goto (.abort txn .errGeneric))
  | check {txn : UInt32} {site : LockSite} : lockKey c site ∉ own →
      IdealStep c env free full db own (.lock .check txn site) db own (.goto (.lock .acquire txn site))
  | noMemory {txn : UInt32} {site : LockSite} : env.lockAlloc = false →
      IdealStep c env free full db own (.lock .acquire txn site) db own
        (.goto (.abort txn .errGeneric))
  | acquire {txn : UInt32} {site : LockSite} : free (lockKey c site) →
      IdealStep c env free full db own (.lock .acquire txn site) db (own ++ [lockKey c site])
        (.goto (.lock .register txn site))
  | register {txn : UInt32} {site : LockSite} :
      IdealStep c env free full db own (.lock .register txn site) db own (.goto (afterLock c txn site))
  | table {txn : UInt32} {ts : TableStep} {db' : Db} {pc : Pc} :
      tableStep c env db txn ts = some (db', pc) →
      IdealStep c env free full db own (.table txn ts) db' own (.goto pc)
  | commitFail {txn : UInt32} {out : Option Nat} : (env.logged && env.flushed) = false →
      IdealStep c env free full db own (.commit txn out) db own (.goto (.abort txn .errIo))
  | commit {txn : UInt32} {out : Option Nat} :
      IdealStep c env free full db own (.commit txn out) db own (.goto (.release own .ok out))
  | abort {txn : UInt32} {rc : EtpResult} :
      IdealStep c env free full db own (.abort txn rc) db own (.goto (.release own rc none))
  | unlock {key : LockKey} {keys : List LockKey} {rc : EtpResult} {out : Option Nat} :
      IdealStep c env free full db own (.release (key :: keys) rc out) db keys
        (.goto (.release keys rc out))
  | ret {rc : EtpResult} {out : Option Nat} :
      IdealStep c env free full db own (.release [] rc out) db own (.ret rc out)

/-- One step of the ideal system. -/
inductive Ideal.Step (s : Ideal) : Action → Ideal → Prop where
  | start {i : Nat} {c : Call} : s.procs i = .idle →
      Ideal.Step s (.start i c) { s with procs := Function.update s.procs i (.running c c.entry) }
  | run {i : Nat} {env : Env} {c : Call} {pc : Pc} {db' : Db} {own' : List LockKey} {next : Next} :
      s.procs i = .running c pc → IdealStep c env s.Free s.Full s.db (s.own i) pc db' own' next →
      Ideal.Step s (.run i env)
        ⟨db', Function.update s.procs i (next.proc c), Function.update s.own i own'⟩

/-- At rest. -/
def Ideal.init (db : Db) : Ideal := ⟨db, fun _ => .idle, fun _ => []⟩

/-! ## How the managers represent the lists -/

/-- The locks a call owns that are not in its slot: acquired and not yet registered, or copied for
the unlock loop. -/
def Pc.loose (c : Call) : Pc → List LockKey
  | .lock .register _ site => [lockKey c site]
  | .release keys _ _ => keys
  | _ => []

/-- The slot of a transaction. -/
def TxnManager.HasTxn (tm : TxnManager) (txn : UInt32) (locks : List LockKey) : Prop :=
  ∃ i, tm.txns i = some ⟨txn, locks⟩

/-- The lock list of one call: what its slot has registered, then its loose locks. -/
def LocksRep (tm : TxnManager) : Proc → List LockKey → Prop
  | .running c pc, own =>
    (∀ txn key, pc ≠ .orphan txn key) ∧
    match pc.txn with
    | some txn => ∃ locks, tm.HasTxn txn locks ∧ own = locks ++ pc.loose c
    | none => own = pc.loose c
  | _, own => own = []

/-- The slots and lock entries represent the lists `own`. -/
structure LockInv (w : World) (own : Nat → List LockKey) : Prop where
  distinct : w.tm.DistinctIds
  next_ne : w.tm.nextTxnId ≠ INVALID_TXN_ID
  rep : ∀ i, LocksRep w.tm (w.procs i) (own i)
  one_call : ∀ i j txn, (w.procs i).txn = some txn → (w.procs j).txn = some txn → i = j
  slot_call : ∀ n t, w.tm.txns n = some t → ∃ i, (w.procs i).txn = some t.id
  nodup : ∀ i, (own i).Nodup
  disjoint : ∀ i j key, key ∈ own i → key ∈ own j → i = j
  held : ∀ key, (w.locks key).exclusiveHeld = true ↔ ∃ i, key ∈ own i
  no_shared : ∀ key, (w.locks key).sharedCount = 0
  finite : ∃ n, ∀ i, n ≤ i → w.procs i = .idle

/-- A system and the ideal system it stands for. -/
structure Sim (w : World) (s : Ideal) : Prop where
  db : s.db = w.db
  procs : s.procs = w.procs
  inv : LockInv w s.own

theorem Sim.init (db : Db) : Sim (World.init db) (Ideal.init db) := by
  refine ⟨rfl, rfl, ?_⟩
  refine ⟨?_, ?_, fun _ => rfl, ?_, ?_, fun _ => List.nodup_nil, ?_, ?_, fun _ => rfl,
    ⟨0, fun _ _ => rfl⟩⟩
  · intro i j t u hi; cases hi
  · show (1 : UInt32) ≠ 0
    decide
  · intro i j txn h; cases h
  · intro n t h; cases h
  · intro i j key h; cases h
  · intro key
    simp [World.init, lockMgrCreate, Ideal.init]

/-! ## One call moves, the others keep what they have -/

/-- Rebuilding the representation after call `i` has moved to `P` with the locks `own'`. -/
theorem LockInv.rebuild {w : World} {own : Nat → List LockKey} (inv : LockInv w own) {i : Nat}
    {P : Proc} {own' : List LockKey} {s' : Shared} (hd : s'.tm.DistinctIds)
    (hn : s'.tm.nextTxnId ≠ INVALID_TXN_ID) (hrep : LocksRep s'.tm P own')
    (hframe : ∀ txn locks, (w.procs i).txn ≠ some txn → w.tm.HasTxn txn locks →
      s'.tm.HasTxn txn locks)
    (hone : ∀ j txn, j ≠ i → P.txn = some txn → (w.procs j).txn ≠ some txn)
    (hslot : ∀ n t, s'.tm.txns n = some t →
      P.txn = some t.id ∨ ∃ j, j ≠ i ∧ (w.procs j).txn = some t.id)
    (hnodup : own'.Nodup) (hdisj : ∀ j key, j ≠ i → key ∈ own' → key ∉ own j)
    (hheld : ∀ key, (s'.locks key).exclusiveHeld = true ↔
      key ∈ own' ∨ ∃ j, j ≠ i ∧ key ∈ own j)
    (hsh : ∀ key, (s'.locks key).sharedCount = 0) :
    LockInv ⟨s', Function.update w.procs i P⟩ (Function.update own i own') := by
  refine ⟨hd, hn, ?_, ?_, ?_, ?_, ?_, ?_, hsh, ?_⟩
  · intro j
    by_cases hj : j = i
    · subst hj; simpa using hrep
    · simp only [Function.update_of_ne hj]
      have hr := inv.rep j
      cases hp : w.procs j with
      | idle => rw [hp] at hr; exact hr
      | done c rc out => rw [hp] at hr; exact hr
      | running c pc =>
        rw [hp] at hr
        refine ⟨hr.1, ?_⟩
        have h2 := hr.2
        cases ht : pc.txn with
        | none => rw [ht] at h2; exact h2
        | some txn =>
          rw [ht] at h2
          obtain ⟨locks, hl, ho⟩ := h2
          refine ⟨locks, hframe txn locks ?_ hl, ho⟩
          intro hi
          exact hj (inv.one_call j i txn (by rw [hp]; exact ht) hi)
  · intro j k txn hj hk
    by_cases hji : j = i
    · by_cases hki : k = i
      · rw [hji, hki]
      · subst hji
        simp only [Function.update_self, Function.update_of_ne hki] at hj hk
        exact absurd hk (hone k txn hki hj)
    · by_cases hki : k = i
      · subst hki
        simp only [Function.update_self, Function.update_of_ne hji] at hj hk
        exact absurd hj (hone j txn hji hk)
      · simp only [Function.update_of_ne hji, Function.update_of_ne hki] at hj hk
        exact inv.one_call j k txn hj hk
  · intro n t ht
    rcases hslot n t ht with h | ⟨j, hj, h⟩
    · exact ⟨i, by simpa using h⟩
    · exact ⟨j, by simpa [Function.update_of_ne hj] using h⟩
  · intro j
    by_cases hj : j = i
    · subst hj; simpa using hnodup
    · simpa [Function.update_of_ne hj] using inv.nodup j
  · intro j k key hj hk
    by_cases hji : j = i
    · by_cases hki : k = i
      · rw [hji, hki]
      · subst hji
        simp only [Function.update_self, Function.update_of_ne hki] at hj hk
        exact absurd hk (hdisj k key hki hj)
    · by_cases hki : k = i
      · subst hki
        simp only [Function.update_self, Function.update_of_ne hji] at hj hk
        exact absurd hj (hdisj j key hji hk)
      · simp only [Function.update_of_ne hji, Function.update_of_ne hki] at hj hk
        exact inv.disjoint j k key hj hk
  · intro key
    rw [hheld key]
    constructor
    · rintro (h | ⟨j, hj, h⟩)
      · exact ⟨i, by simpa using h⟩
      · exact ⟨j, by simpa [Function.update_of_ne hj] using h⟩
    · rintro ⟨j, h⟩
      by_cases hj : j = i
      · subst hj; left; simpa using h
      · right; exact ⟨j, hj, by simpa [Function.update_of_ne hj] using h⟩
  · obtain ⟨n, hn'⟩ := inv.finite
    refine ⟨max n (i + 1), ?_⟩
    intro j hj
    have hji : j ≠ i := by omega
    simp only [Function.update_of_ne hji]
    exact hn' j (by omega)

/-- What the entries say, seen from call `i`. -/
theorem LockInv.held_split {w : World} {own : Nat → List LockKey} (inv : LockInv w own) (i : Nat)
    (key : LockKey) :
    (w.locks key).exclusiveHeld = true ↔ key ∈ own i ∨ ∃ j, j ≠ i ∧ key ∈ own j := by
  rw [inv.held key]
  constructor
  · rintro ⟨j, h⟩
    by_cases hj : j = i
    · subst hj; exact Or.inl h
    · exact Or.inr ⟨j, hj, h⟩
  · rintro (h | ⟨j, -, h⟩)
    · exact ⟨i, h⟩
    · exact ⟨j, h⟩

theorem LockInv.slot_split {w : World} {own : Nat → List LockKey} (inv : LockInv w own) (i : Nat)
    {n : Fin MAX_ACTIVE_TXNS} {t : Txn} (h : w.tm.txns n = some t) :
    (w.procs i).txn = some t.id ∨ ∃ j, j ≠ i ∧ (w.procs j).txn = some t.id := by
  obtain ⟨j, hj⟩ := inv.slot_call n t h
  by_cases hji : j = i
  · subst hji; exact Or.inl hj
  · exact Or.inr ⟨j, hji, hj⟩

theorem LockInv.others {w : World} {own : Nat → List LockKey} (inv : LockInv w own) {i j : Nat}
    {txn : UInt32} (hji : j ≠ i) (hi : (w.procs i).txn = some txn) :
    (w.procs j).txn ≠ some txn :=
  fun hj => hji (inv.one_call j i txn hj hi)

/-- A move that touches neither manager. -/
theorem LockInv.local_move {w : World} {own : Nat → List LockKey} (inv : LockInv w own) {i : Nat}
    {P : Proc} (htxn : P.txn = (w.procs i).txn) (hrep : LocksRep w.tm P (own i)) (db : Db) :
    LockInv ⟨{ w.toShared with db := db }, Function.update w.procs i P⟩
      (Function.update own i (own i)) := by
  refine inv.rebuild inv.distinct inv.next_ne hrep (fun _ _ _ h => h) ?_ ?_ (inv.nodup i) ?_
    (inv.held_split i) inv.no_shared
  · intro j txn hj h
    rw [htxn] at h
    exact inv.others hj h
  · intro n t ht
    rw [htxn]
    exact inv.slot_split i ht
  · intro j key hj h hk
    exact hj (inv.disjoint j i key hk h)

/-- The slot of a running call. -/
theorem LockInv.find_slot {w : World} {own : Nat → List LockKey} (inv : LockInv w own)
    {txn : UInt32} {locks : List LockKey} (h : w.tm.HasTxn txn locks) :
    ∃ n, findTxnLocked w.tm txn = some n ∧ w.tm.txns n = some ⟨txn, locks⟩ := by
  obtain ⟨n, hn⟩ := h
  exact ⟨n, findTxnLocked_eq hn rfl (fun j u hu hid => inv.distinct j n _ _ hu hn hid), hn⟩

/-! ## Program points inside a transaction -/

/-- Inside transaction `txn`, with every lock registered. -/
structure Pc.Inside (pc : Pc) (c : Call) (txn : UInt32) : Prop where
  txn : pc.txn = some txn
  loose : pc.loose c = []

theorem Pc.Inside.not_orphan {pc : Pc} {c : Call} {txn : UInt32} (h : pc.Inside c txn) (t : UInt32)
    (key : LockKey) : pc ≠ .orphan t key := by
  rintro rfl
  cases h.txn

theorem bookVerifyLoop_inside (c : Call) (evt : EventRecord) (txn : UInt32) (i : Nat) :
    (bookVerifyLoop c evt txn i).Inside c txn := by
  unfold bookVerifyLoop; split <;> exact ⟨rfl, rfl⟩

theorem bookLockLoop_inside (c : Call) (evt : EventRecord) (txn : UInt32) (i : Nat) :
    (bookLockLoop c evt txn i).Inside c txn := by
  unfold bookLockLoop
  split
  · exact ⟨rfl, rfl⟩
  · exact bookVerifyLoop_inside c evt txn 0

theorem bookSeatLoop_inside (c : Call) (txn : UInt32) (b i : Nat) :
    (bookSeatLoop c txn b i).Inside c txn := by
  unfold bookSeatLoop; split <;> exact ⟨rfl, rfl⟩

theorem cancelSeatLoop_inside (c : Call) (txn : UInt32) (booking : BookingRecord)
    (rows : List BookingSeatRecord) (i : Nat) :
    (cancelSeatLoop txn booking rows i).Inside c txn := by
  unfold cancelSeatLoop; split <;> exact ⟨rfl, rfl⟩

theorem afterLock_inside (c : Call) (txn : UInt32) (site : LockSite) :
    (afterLock c txn site).Inside c txn := by
  cases site with
  | bookSeat evt i => exact bookLockLoop_inside c evt txn (i + 1)
  | cancelBooking => exact ⟨rfl, rfl⟩
  | cancelSeat booking rows i => exact ⟨rfl, rfl⟩

theorem afterBegin_inside (c : Call) (txn : UInt32) (evt : Option EventRecord) :
    (afterBegin c txn evt).Inside c txn := by
  cases evt with
  | none => exact ⟨rfl, rfl⟩
  | some evt => exact bookLockLoop_inside c evt txn 0

/-- A table call stays inside its transaction. -/
theorem tableStep_inside {c : Call} {env : Env} {db db' : Db} {txn : UInt32} {ts : TableStep}
    {pc : Pc} (h : tableStep c env db txn ts = some (db', pc)) : pc.Inside c txn := by
  have habort : ∀ rc, (Pc.abort txn rc).Inside c txn := fun _ => ⟨rfl, rfl⟩
  cases ts with
  | bookVerify evt i =>
    obtain ⟨r, -, hr⟩ := Option.map_eq_some_iff.mp h
    obtain ⟨-, rfl⟩ := Prod.mk.inj hr
    split
    · exact habort _
    · split
      · exact habort _
      · split
        · exact habort _
        · exact bookVerifyLoop_inside c evt txn (i + 1)
  | bookInsert evt =>
    obtain ⟨r, -, hr⟩ := Option.map_eq_some_iff.mp h
    obtain ⟨-, rfl⟩ := Prod.mk.inj hr
    split
    · exact habort _
    · exact bookSeatLoop_inside c txn _ 0
  | bookJunction b i =>
    obtain ⟨r, -, hr⟩ := Option.map_eq_some_iff.mp h
    obtain ⟨-, rfl⟩ := Prod.mk.inj hr
    split
    · exact habort _
    · exact ⟨rfl, rfl⟩
  | bookFindSeat b i =>
    obtain ⟨r, -, hr⟩ := Option.map_eq_some_iff.mp h
    obtain ⟨-, rfl⟩ := Prod.mk.inj hr
    split
    · exact habort _
    · exact ⟨rfl, rfl⟩
  | bookUpdateSeat b i seat =>
    obtain ⟨r, -, hr⟩ := Option.map_eq_some_iff.mp h
    obtain ⟨-, rfl⟩ := Prod.mk.inj hr
    split
    · exact habort _
    · exact bookSeatLoop_inside c txn b (i + 1)
  | cancelFind =>
    obtain ⟨r, -, hr⟩ := Option.map_eq_some_iff.mp h
    obtain ⟨-, rfl⟩ := Prod.mk.inj hr
    split
    · exact habort _
    · split
      · exact habort _
      · split
        · exact habort _
        · exact ⟨rfl, rfl⟩
  | cancelScan booking =>
    obtain ⟨rows, -, hr⟩ := Option.map_eq_some_iff.mp h
    obtain ⟨-, rfl⟩ := Prod.mk.inj hr
    exact cancelSeatLoop_inside c txn booking _ 0
  | cancelFindSeat booking rows i =>
    obtain ⟨r, -, hr⟩ := Option.map_eq_some_iff.mp h
    obtain ⟨-, rfl⟩ := Prod.mk.inj hr
    split
    · exact cancelSeatLoop_inside c txn booking rows (i + 1)
    · exact ⟨rfl, rfl⟩
  | cancelUpdateSeat booking rows i seat =>
    obtain ⟨r, -, hr⟩ := Option.map_eq_some_iff.mp h
    obtain ⟨-, rfl⟩ := Prod.mk.inj hr
    split
    · exact habort _
    · exact cancelSeatLoop_inside c txn booking rows (i + 1)
  | cancelUpdateBooking booking rows =>
    obtain ⟨r, -, hr⟩ := Option.map_eq_some_iff.mp h
    obtain ⟨-, rfl⟩ := Prod.mk.inj hr
    split
    · exact habort _
    · exact ⟨rfl, rfl⟩

/-! ## The simulation -/

section Steps

variable {w : World} {own : Nat → List LockKey} {i : Nat} {c : Call}

/-- The locks of a call with every lock registered. -/
theorem LockInv.registered (inv : LockInv w own) {pc : Pc} {txn : UInt32}
    (hi : w.procs i = .running c pc) (hp : pc.Inside c txn) : w.tm.HasTxn txn (own i) := by
  have h := inv.rep i
  rw [hi] at h
  have h2 := h.2
  rw [hp.txn] at h2
  obtain ⟨locks, hl, ho⟩ := h2
  rw [hp.loose, List.append_nil] at ho
  rwa [ho]

theorem locksAt_eq {tm : TxnManager} {n : Fin MAX_ACTIVE_TXNS} {t : Txn}
    (h : tm.txns n = some t) : tm.locksAt n = t.locks := by
  simp [TxnManager.locksAt, h]

/-- Moving within the transaction. -/
theorem LockInv.move (inv : LockInv w own) {pc pc' : Pc} {txn : UInt32}
    (hi : w.procs i = .running c pc) (hp : pc.Inside c txn) (hp' : pc'.Inside c txn) (db : Db) :
    LockInv ⟨{ w.toShared with db := db }, Function.update w.procs i (.running c pc')⟩
      (Function.update own i (own i)) := by
  refine inv.local_move ?_ ?_ db
  · rw [hi]
    show pc'.txn = pc.txn
    rw [hp.txn, hp'.txn]
  · refine ⟨hp'.not_orphan, ?_⟩
    rw [hp'.txn]
    exact ⟨own i, inv.registered hi hp, by rw [hp'.loose, List.append_nil]⟩

/-- Returning to the caller with nothing owned. -/
theorem LockInv.finish (inv : LockInv w own) {pc : Pc} (hi : w.procs i = .running c pc)
    (ht : pc.txn = none) (ho : own i = []) (rc : EtpResult) (out : Option Nat) (db : Db) :
    LockInv ⟨{ w.toShared with db := db }, Function.update w.procs i (.done c rc out)⟩
      (Function.update own i (own i)) := by
  refine inv.local_move (P := .done c rc out) ?_ ho db
  rw [hi]
  exact ht.symm

/-- What a call outside a transaction owns. -/
theorem LockInv.loose_only (inv : LockInv w own) {pc : Pc} (hi : w.procs i = .running c pc)
    (ht : pc.txn = none) : own i = pc.loose c := by
  have h := inv.rep i
  rw [hi] at h
  have h2 := h.2
  rwa [ht] at h2

/-- `txn_begin` fails only when every slot is taken. -/
theorem LockInv.full (inv : LockInv w own) (h : (txnBegin w.tm).1 = INVALID_TXN_ID) :
    Ideal.Full ⟨w.db, w.procs, own⟩ := by
  have hnone : w.tm.firstSlot Option.isNone = none := by
    unfold txnBegin at h
    split at h
    · assumption
    · exact absurd h inv.next_ne
  have hslot : ∀ n, ∃ j t, w.tm.txns n = some t ∧ (w.procs j).txn = some t.id := by
    intro n
    have hn := TxnManager.firstSlot_none hnone n
    cases ht : w.tm.txns n with
    | none => rw [ht] at hn; cases hn
    | some t =>
      obtain ⟨j, hj⟩ := inv.slot_call n t ht
      exact ⟨j, t, rfl, hj⟩
  choose f t ht hf using hslot
  -- one call per slot, since the slots have different ids
  have hinj : Function.Injective f := by
    intro n m hnm
    have hid : (t n).id = (t m).id := by
      have h1 := hf n
      rw [hnm, hf m, Option.some.injEq] at h1
      exact h1.symm
    exact inv.distinct n m _ _ (ht n) (ht m) hid
  refine ⟨(List.finRange MAX_ACTIVE_TXNS).map f, (List.nodup_finRange _).map hinj, by simp, ?_⟩
  intro j hj
  obtain ⟨n, -, rfl⟩ := List.mem_map.mp hj
  exact ⟨_, hf n⟩

/-- `txn_begin` under a fresh id. -/
theorem LockInv.begin (inv : LockInv w own) {pc pc' : Pc} {txn : UInt32}
    (hi : w.procs i = .running c pc) (ht : pc.txn = none) (ho : own i = [])
    (hp' : pc'.Inside c txn) (hfresh : ¬ w.tm.Active txn) {n : Fin MAX_ACTIVE_TXNS}
    (hn : w.tm.txns n = none) {next : UInt32} (hnext : next ≠ INVALID_TXN_ID) :
    LockInv ⟨{ w.toShared with tm := { w.tm.setSlot n (some ⟨txn, []⟩) with nextTxnId := next } },
        Function.update w.procs i (.running c pc')⟩ (Function.update own i (own i)) := by
  have hslot : ∀ m, ({ w.tm.setSlot n (some ⟨txn, []⟩) with nextTxnId := next } : TxnManager).txns m
      = (w.tm.setSlot n (some ⟨txn, []⟩)).txns m := fun _ => rfl
  refine inv.rebuild ?_ hnext ?_ ?_ ?_ ?_ (inv.nodup i) ?_ (inv.held_split i) inv.no_shared
  · refine TxnManager.setSlot_some_distinct inv.distinct ?_
    intro j u _ hu hid
    exact hfresh ⟨j, u, hu, hid⟩
  · refine ⟨hp'.not_orphan, ?_⟩
    rw [hp'.txn]
    refine ⟨[], ⟨n, ?_⟩, ?_⟩
    · rw [hslot, TxnManager.setSlot_same]
    · rw [ho, hp'.loose]; rfl
  · rintro t locks - ⟨m, hm⟩
    refine ⟨m, ?_⟩
    have hmn : m ≠ n := by rintro rfl; rw [hn] at hm; cases hm
    rw [hslot, TxnManager.setSlot_ne hmn]
    exact hm
  · intro j t hj h hjt
    have : t = txn := by
      have h' : pc'.txn = some t := h
      rw [hp'.txn] at h'
      exact (Option.some.inj h').symm
    subst this
    -- a call inside `t` has a slot for `t`
    have hr := inv.rep j
    cases hp : w.procs j with
    | idle => rw [hp] at hjt; cases hjt
    | done d rc out => rw [hp] at hjt; cases hjt
    | running d q =>
      rw [hp] at hr hjt
      have h2 := hr.2
      have hq : q.txn = some t := hjt
      rw [hq] at h2
      obtain ⟨locks, ⟨m, hm⟩, -⟩ := h2
      exact hfresh ⟨m, _, hm, rfl⟩
  · intro m t hm
    rw [hslot] at hm
    by_cases hmn : m = n
    · subst hmn
      rw [TxnManager.setSlot_same, Option.some.injEq] at hm
      left
      rw [← hm]
      exact hp'.txn
    · rw [TxnManager.setSlot_ne hmn] at hm
      rcases inv.slot_split i hm with h | h
      · rw [hi] at h
        have h' : pc.txn = some t.id := h
        rw [ht] at h'
        cases h'
      · exact Or.inr h
  · intro j key hj h hk
    exact hj (inv.disjoint j i key hk h)

/-- `lock_mgr_lock` grants a free record. -/
theorem LockInv.acquire (inv : LockInv w own) {txn : UInt32} {site : LockSite}
    (hi : w.procs i = .running c (.lock .acquire txn site))
    (hfree : (w.locks (lockKey c site)).exclusiveHeld = false) :
    LockInv ⟨{ w.toShared with locks := w.locks.setHeld (lockKey c site) true },
        Function.update w.procs i (.running c (.lock .register txn site))⟩
      (Function.update own i (own i ++ [lockKey c site])) := by
  have hnone : ∀ j, lockKey c site ∉ own j := by
    intro j hj
    have := (inv.held (lockKey c site)).mpr ⟨j, hj⟩
    rw [hfree] at this
    cases this
  have hins : (Pc.lock .acquire txn site).Inside c txn := ⟨rfl, rfl⟩
  refine inv.rebuild inv.distinct inv.next_ne ?_ (fun _ _ _ h => h) ?_ ?_ ?_ ?_ ?_ ?_
  · refine ⟨(fun t key h => by cases h), ?_⟩
    exact ⟨own i, inv.registered hi hins, rfl⟩
  · intro j t hj h
    refine inv.others hj ?_
    rw [hi]
    exact h
  · intro n t ht
    have := inv.slot_split i ht
    rw [hi] at this
    exact this
  · rw [List.nodup_append]
    refine ⟨inv.nodup i, List.nodup_singleton _, ?_⟩
    intro a ha b hb
    rw [List.mem_singleton] at hb
    subst hb
    rintro rfl
    exact hnone i ha
  · intro j key hj h hk
    rcases List.mem_append.mp h with h | h
    · exact hj (inv.disjoint j i key hk h)
    · rw [List.mem_singleton] at h
      subst h
      exact hnone j hk
  · intro key
    by_cases hkey : key = lockKey c site
    · subst hkey
      simp
    · have := inv.held_split i key
      simp only [LockManager.setHeld_ne hkey, List.mem_append, List.mem_singleton, hkey, or_false]
      exact this
  · intro key
    by_cases hkey : key = lockKey c site
    · subst hkey
      simpa using inv.no_shared (lockKey c site)
    · simpa [LockManager.setHeld_ne hkey] using inv.no_shared key

/-- `txn_lock` registers the lock it has acquired. -/
theorem LockInv.register (inv : LockInv w own) {txn : UInt32} {site : LockSite}
    (hi : w.procs i = .running c (.lock .register txn site)) :
    ∃ tm', txnLockRegister w.tm txn (lockKey c site) = some tm' ∧
      LockInv ⟨{ w.toShared with tm := tm' },
          Function.update w.procs i (.running c (afterLock c txn site))⟩
        (Function.update own i (own i)) := by
  have hr := inv.rep i
  rw [hi] at hr
  obtain ⟨locks, hl, ho⟩ := hr.2
  obtain ⟨n, hf, hn⟩ := inv.find_slot hl
  have hp' := afterLock_inside c txn site
  refine ⟨w.tm.setSlot n (some ⟨txn, locks ++ [lockKey c site]⟩), ?_, ?_⟩
  · simp [txnLockRegister, hf, locksAt_eq hn]
  · refine inv.rebuild ?_ inv.next_ne ?_ ?_ ?_ ?_ (inv.nodup i) ?_ (inv.held_split i)
      inv.no_shared
    · refine TxnManager.setSlot_some_distinct inv.distinct ?_
      intro j u hj hu hid
      exact hj (inv.distinct j n u _ hu hn hid)
    · refine ⟨hp'.not_orphan, ?_⟩
      rw [hp'.txn]
      exact ⟨_, ⟨n, TxnManager.setSlot_same _ _ _⟩, by rw [ho, hp'.loose, List.append_nil]; rfl⟩
    · rintro t ls hne ⟨m, hm⟩
      refine ⟨m, ?_⟩
      have hmn : m ≠ n := by
        rintro rfl
        rw [hn, Option.some.injEq, Txn.mk.injEq] at hm
        apply hne
        rw [hi, ← hm.1]
        rfl
      rw [TxnManager.setSlot_ne hmn]
      exact hm
    · intro j t hj h
      refine inv.others hj ?_
      rw [hi]
      have h' : (afterLock c txn site).txn = some t := h
      rw [hp'.txn] at h'
      exact h'
    · intro m t hm
      by_cases hmn : m = n
      · subst hmn
        rw [TxnManager.setSlot_same, Option.some.injEq] at hm
        left
        rw [← hm]
        exact hp'.txn
      · rw [TxnManager.setSlot_ne hmn] at hm
        rcases inv.slot_split i hm with h | h
        · left
          rw [hi] at h
          have h' : some txn = some t.id := h
          rw [← h']
          exact hp'.txn
        · exact Or.inr h
    · intro j key hj h hk
      exact hj (inv.disjoint j i key hk h)

/-- The section of `txn_commit` or `txn_abort` that ends a transaction. -/
theorem LockInv.finish_txn (inv : LockInv w own) {pc : Pc} {txn : UInt32}
    (hi : w.procs i = .running c pc) (hp : pc.Inside c txn) (rc : EtpResult) (out : Option Nat) :
    ∃ n, findTxnLocked w.tm txn = some n ∧ w.tm.locksAt n = own i ∧
      LockInv ⟨{ w.toShared with tm := w.tm.setSlot n none },
          Function.update w.procs i (.running c (.release (own i) rc out))⟩
        (Function.update own i (own i)) := by
  obtain ⟨n, hf, hn⟩ := inv.find_slot (inv.registered hi hp)
  have hit : (w.procs i).txn = some txn := by rw [hi]; exact hp.txn
  refine ⟨n, hf, locksAt_eq hn, ?_⟩
  refine inv.rebuild (P := .running c (.release (own i) rc out))
    (TxnManager.setSlot_none_distinct inv.distinct n) inv.next_ne ⟨(fun t key h => by cases h), rfl⟩ ?_ ?_ ?_ (inv.nodup i) ?_ (inv.held_split i) inv.no_shared
  · rintro t ls hne ⟨m, hm⟩
    refine ⟨m, ?_⟩
    have hmn : m ≠ n := by
      rintro rfl
      rw [hn, Option.some.injEq, Txn.mk.injEq] at hm
      exact hne (by rw [hit, hm.1])
    rw [TxnManager.setSlot_ne hmn]
    exact hm
  · intro j t hj h
    cases h
  · intro m t hm
    have hmn : m ≠ n := by rintro rfl; simp at hm
    rw [TxnManager.setSlot_ne hmn] at hm
    rcases inv.slot_split i hm with h | h
    · rw [hit, Option.some.injEq] at h
      exact absurd (inv.distinct m n t _ hm hn h.symm) hmn
    · exact Or.inr h
  · intro j key hj h hk
    exact hj (inv.disjoint j i key hk h)

/-- `lock_mgr_unlock` in the unlock loop. -/
theorem LockInv.unlock (inv : LockInv w own) {key : LockKey} {keys : List LockKey} {rc : EtpResult}
    {out : Option Nat} (hi : w.procs i = .running c (.release (key :: keys) rc out)) :
    LockInv ⟨{ w.toShared with locks := (lockMgrUnlock w.locks key).2 },
        Function.update w.procs i (.running c (.release keys rc out))⟩
      (Function.update own i keys) := by
  have ho : own i = key :: keys := inv.loose_only hi rfl
  have hnd := inv.nodup i
  rw [ho, List.nodup_cons] at hnd
  have hheld : (w.locks key).exclusiveHeld = true := (inv.held key).mpr ⟨i, by rw [ho]; simp⟩
  have hun : (lockMgrUnlock w.locks key).2 = w.locks.setHeld key false := by
    simp [lockMgrUnlock, hheld]
  rw [hun]
  refine inv.rebuild (P := .running c (.release keys rc out)) inv.distinct inv.next_ne
    ⟨(fun t k h => by cases h), rfl⟩ (fun _ _ _ h => h) ?_ ?_ hnd.2 ?_ ?_ ?_
  · intro j t hj h
    cases h
  · intro n t ht
    have := inv.slot_split i ht
    rw [hi] at this
    exact this
  · intro j k hj h hk
    exact hj (inv.disjoint j i k hk (by rw [ho]; exact List.mem_cons_of_mem _ h))
  · intro k
    by_cases hk : k = key
    · subst hk
      simp only [LockManager.setHeld_same, Bool.false_eq_true, false_iff]
      rintro (h | ⟨j, hj, h⟩)
      · exact hnd.1 h
      · exact hj (inv.disjoint j i k h (by rw [ho]; simp))
    · have := inv.held_split i k
      rw [ho, List.mem_cons] at this
      simp only [hk, false_or] at this
      simpa [LockManager.setHeld_ne hk] using this
  · intro k
    by_cases hk : k = key
    · subst hk
      simpa using inv.no_shared k
    · simpa [LockManager.setHeld_ne hk] using inv.no_shared k

/-- One step of a running call, seen in the ideal system. -/
theorem LockInv.pcStep (inv : LockInv w own) {pc : Pc} {env : Env} {s' : Shared} {next : Next}
    (hi : w.procs i = .running c pc) (hfresh : FreshTxn w (.run i env))
    (h : pcStep c env w.toShared pc = some (s', next)) :
    ∃ own', IdealStep c env (Ideal.Free ⟨w.db, w.procs, own⟩)
      (Ideal.Full ⟨w.db, w.procs, own⟩) w.db (own i) pc s'.db own' next ∧
      LockInv ⟨s', Function.update w.procs i (next.proc c)⟩ (Function.update own i own') := by
  cases pc with
  | bookStart =>
    obtain ⟨r, hr, he⟩ := Option.map_eq_some_iff.mp h
    obtain ⟨rfl, rfl⟩ := Prod.mk.inj he
    refine ⟨own i, .start hr, ?_⟩
    have ho : own i = [] := inv.loose_only hi rfl
    cases hn : r.2 with
    | ret rc out => exact inv.finish hi rfl ho rc out r.1
    | goto pc' =>
      have hpc' : ∃ evt, pc' = .begin (some evt) := by
        unfold bookStart at hr
        split at hr
        · obtain ⟨q, -, hq⟩ := Option.map_eq_some_iff.mp hr
          rw [← hq] at hn
          simp only at hn
          split at hn
          · cases hn
          · split at hn
            · cases hn
            · exact ⟨_, (Next.goto.inj hn).symm⟩
        · rw [← Option.some.inj hr] at hn
          cases hn
      obtain ⟨evt, rfl⟩ := hpc'
      refine inv.local_move (P := .running c (.begin (some evt))) ?_ ?_ r.1
      · rw [hi]; rfl
      · exact ⟨(fun t key h => by cases h), ho⟩
  | begin evt =>
    have ho : own i = [] := inv.loose_only hi rfl
    simp only [Ticketing.pcStep] at h
    split at h
    · rename_i hinvalid
      obtain ⟨rfl, rfl⟩ := Prod.mk.inj (Option.some.inj h)
      exact ⟨own i, .beginFull (inv.full hinvalid), inv.finish hi rfl ho .errGeneric none w.db⟩
    · rename_i hvalid
      obtain ⟨rfl, rfl⟩ := Prod.mk.inj (Option.some.inj h)
      have hfr := hfresh c evt hi hvalid
      unfold txnBegin at hvalid hfr ⊢
      cases hs : w.tm.firstSlot Option.isNone with
      | none => simp [hs] at hvalid
      | some n =>
        simp only [hs] at hfr ⊢
        have hn : w.tm.txns n = none := by
          have := TxnManager.firstSlot_some hs
          simpa using this
        refine ⟨own i, .begin _, ?_⟩
        refine inv.begin hi rfl ho (afterBegin_inside c _ evt) hfr hn ?_
        unfold bumpTxnId
        split
        · decide
        · assumption
  | lock stage txn site =>
    have hins : stage ≠ .register → (Pc.lock stage txn site).Inside c txn := by
      intro hne
      cases stage with
      | check => exact ⟨rfl, rfl⟩
      | acquire => exact ⟨rfl, rfl⟩
      | register => exact absurd rfl hne
    cases stage with
    | check =>
      have hp := hins (by simp)
      obtain ⟨n, hf, hn⟩ := inv.find_slot (inv.registered hi hp)
      simp only [Ticketing.pcStep, txnLockCheck, hf, locksAt_eq hn] at h
      by_cases hkey : lockKey c site ∈ own i
      · simp only [hkey, if_true] at h
        obtain ⟨rfl, rfl⟩ := Prod.mk.inj (Option.some.inj h)
        exact ⟨own i, .held hkey, inv.move hi hp (afterLock_inside c txn site) w.db⟩
      · by_cases hfull : MAX_LOCKS_PER_TXN ≤ (own i).length
        · simp only [hkey, hfull, if_false, if_true] at h
          obtain ⟨rfl, rfl⟩ := Prod.mk.inj (Option.some.inj h)
          exact ⟨own i, .refused hkey hfull, inv.move hi hp ⟨rfl, rfl⟩ w.db⟩
        · simp only [hkey, hfull, if_false] at h
          obtain ⟨rfl, rfl⟩ := Prod.mk.inj (Option.some.inj h)
          exact ⟨own i, .check hkey, inv.move hi hp ⟨rfl, rfl⟩ w.db⟩
    | acquire =>
      have hp := hins (by simp)
      obtain ⟨locks, hl, he⟩ := Option.map_eq_some_iff.mp h
      have hfree : (w.locks (lockKey c site)).exclusiveHeld = false := by
        simp only [lockMgrLock] at hl
        split at hl
        · cases hl
        · rename_i hno
          simp only [not_or, Bool.not_eq_true] at hno
          exact hno.1
      have hlocks : locks = w.locks.setHeld (lockKey c site) true := by
        simpa [lockMgrLock, hfree, inv.no_shared] using hl.symm
      have hnone : ∀ j, lockKey c site ∉ own j := by
        intro j hj
        have := (inv.held (lockKey c site)).mpr ⟨j, hj⟩
        rw [hfree] at this
        cases this
      cases ha : env.lockAlloc with
      | true =>
        simp only [ha, if_true] at he
        obtain ⟨rfl, rfl⟩ := Prod.mk.inj he
        subst hlocks
        exact ⟨_, .acquire hnone, inv.acquire hi hfree⟩
      | false =>
        simp only [ha, Bool.false_eq_true, if_false] at he
        obtain ⟨rfl, rfl⟩ := Prod.mk.inj he
        exact ⟨own i, .noMemory ha, inv.move hi hp ⟨rfl, rfl⟩ w.db⟩
    | register =>
      obtain ⟨tm', htm, hinv⟩ := inv.register hi
      simp only [Ticketing.pcStep, htm] at h
      obtain ⟨rfl, rfl⟩ := Prod.mk.inj (Option.some.inj h)
      exact ⟨own i, .register, hinv⟩
  | table txn ts =>
    obtain ⟨r, hr, he⟩ := Option.map_eq_some_iff.mp h
    obtain ⟨rfl, rfl⟩ := Prod.mk.inj he
    exact ⟨own i, .table hr, inv.move hi ⟨rfl, rfl⟩ (tableStep_inside hr) r.1⟩
  | commit txn out =>
    have hp : (Pc.commit txn out).Inside c txn := ⟨rfl, rfl⟩
    obtain ⟨n, hf, hl, hinv⟩ := inv.finish_txn hi hp .ok out
    simp only [Ticketing.pcStep, txnCommitSection, hf] at h
    by_cases hok : (env.logged && env.flushed) = true
    · simp only [Bool.and_eq_true] at hok
      simp only [hok.1, hok.2, Bool.not_true, Bool.false_eq_true, if_false, hl] at h
      obtain ⟨rfl, rfl⟩ := Prod.mk.inj (Option.some.inj h)
      exact ⟨own i, .commit, hinv⟩
    · have hfalse : (env.logged && env.flushed) = false := by simpa using hok
      have : (s', next) = (w.toShared, Next.goto (.abort txn .errIo)) := by
        cases hlg : env.logged with
        | false => simpa [hlg] using h.symm
        | true =>
          have hfl : env.flushed = false := by simpa [hlg] using hfalse
          simpa [hlg, hfl] using h.symm
      obtain ⟨rfl, rfl⟩ := Prod.mk.inj this
      exact ⟨own i, .commitFail hfalse, inv.move hi hp ⟨rfl, rfl⟩ w.db⟩
  | abort txn rc =>
    obtain ⟨n, hf, hl, hinv⟩ := inv.finish_txn hi (⟨rfl, rfl⟩ : (Pc.abort txn rc).Inside c txn) rc none
    simp only [Ticketing.pcStep, txnAbortSection, hf, hl] at h
    obtain ⟨rfl, rfl⟩ := Prod.mk.inj (Option.some.inj h)
    exact ⟨own i, .abort, hinv⟩
  | orphan txn key =>
    have := inv.rep i
    rw [hi] at this
    exact absurd rfl (this.1 txn key)
  | release keys rc out =>
    cases keys with
    | nil =>
      obtain ⟨rfl, rfl⟩ := Prod.mk.inj (Option.some.inj h)
      exact ⟨own i, .ret, inv.finish hi rfl (inv.loose_only hi rfl) rc out w.db⟩
    | cons key keys =>
      obtain ⟨rfl, rfl⟩ := Prod.mk.inj (Option.some.inj h)
      exact ⟨keys, .unlock, inv.unlock hi⟩

end Steps

/-- **Simulation.**  Every step of the system, failing or not, is a step of the ideal system, as
long as transactions begin under fresh ids. -/
theorem Sim.step {w w' : World} {s : Ideal} {a : Action} (h : Sim w s) (hfresh : FreshTxn w a)
    (hstep : Ticketing.step w a = some w') : ∃ s', s.Step a s' ∧ Sim w' s' := by
  obtain ⟨db, procs, own⟩ := s
  obtain ⟨rfl, rfl, inv⟩ := h
  cases a with
  | start i c =>
    cases hi : w.procs i with
    | running d pc => simp [Ticketing.step, hi] at hstep
    | done d rc out => simp [Ticketing.step, hi] at hstep
    | idle =>
      simp only [Ticketing.step, hi, Option.some.injEq] at hstep
      subst hstep
      refine ⟨_, .start hi, rfl, rfl, ?_⟩
      have ho : own i = [] := by
        have := inv.rep i
        rw [hi] at this
        exact this
      have hentry : c.entry.txn = none ∧ c.entry.loose c = [] ∧
          ∀ txn key, c.entry ≠ .orphan txn key := by
        cases c <;> refine ⟨rfl, rfl, ?_⟩ <;> intro txn key h <;> cases h
      have hmove := inv.local_move (i := i) (P := .running c c.entry) ?_ ?_ w.db
      · rwa [Function.update_eq_self] at hmove
      · rw [hi]; exact hentry.1
      · refine ⟨hentry.2.2, ?_⟩
        rw [hentry.1, hentry.2.1]
        exact ho
  | run i env =>
    cases hi : w.procs i with
    | idle => simp [Ticketing.step, hi] at hstep
    | done d rc out => simp [Ticketing.step, hi] at hstep
    | running c pc =>
      simp only [Ticketing.step, hi] at hstep
      obtain ⟨⟨s', next⟩, hpc, rfl⟩ := Option.map_eq_some_iff.mp hstep
      obtain ⟨own', hideal, hinv⟩ := inv.pcStep hi hfresh hpc
      exact ⟨_, .run hi hideal, rfl, rfl, hinv⟩

/-- Every state of a run with fresh ids stands for a state of the ideal system that keeps any
invariant of it. -/
theorem Sim.reachable {db : Db} {ok : World → Action → Prop}
    (hok : ∀ w a, ok w a → FreshTxn w a) {I : Ideal → Prop} (hinit : I (Ideal.init db))
    (hI : ∀ w s a s', Sim w s → ok w a → I s → s.Step a s' → I s') {w : World}
    (h : Reachable Ticketing.step ok (World.init db) w) : ∃ s, Sim w s ∧ I s := by
  induction h with
  | refl => exact ⟨_, Sim.init db, hinit⟩
  | tail a _ hoka hs ih =>
    obtain ⟨s, hsim, hIs⟩ := ih
    obtain ⟨s', hstep, hsim'⟩ := hsim.step (hok _ _ hoka) hs
    exact ⟨s', hsim', hI _ s a s' hsim hoka hIs hstep⟩

end Ticketing
