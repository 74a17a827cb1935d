import Ticketing.Txn.LockThreads

/-!
# Transactions on threads (`server/txn/txn_manager.c` over `lock_manager.c`)

Threads that call `txn_begin`, `txn_lock`, `txn_commit` and `txn_abort`.  A step is one critical
section, of `tm->mutex` or of a bucket mutex, so everything can happen between the check of
`txn_lock`, its `lock_mgr_lock` and the registration, and between freeing a slot and handing back
its locks.

The lock lists of the source say which records a transaction holds and not in which mode, and a
lock in a thread's hands is in no list at all.  `LockSys.grants` keeps track of both: a granted
lock belongs to the thread that acquired it, then to the transaction it is registered with, then
to the thread that ended the transaction.

* `TxnSys.step` — one critical section of one thread.
* `TxnSys.Inv` — every granted lock is in exactly one place, kept by every step.
-/

set_option autoImplicit false

namespace Ticketing

/-- Who answers for a granted lock: a transaction's lock list, or a thread on its behalf. -/
inductive Owner where
  | txn (id : UInt32)
  | thread (t : Nat) (id : UInt32)
  deriving DecidableEq, Repr

/-- Where a thread is. -/
inductive TxnPc where
  /-- In no call. -/
  | idle
  /-- In `txn_lock`, before `lock_mgr_lock`. -/
  | acquire (id : UInt32) (key : LockKey) (mode : LockMode)
  /-- In the wait loop of `lock_mgr_lock`. -/
  | waiting (id : UInt32) (key : LockKey) (mode : LockMode)
  /-- In `txn_lock`, with the lock, before registering it. -/
  | register (id : UInt32) (key : LockKey) (mode : LockMode)
  /-- In `txn_lock`, before handing back the lock of a transaction that has ended. -/
  | orphan (id : UInt32) (key : LockKey)
  /-- In `txn_commit` after a log failure, before `txn_abort`. -/
  | aborting (id : UInt32)
  /-- In the release loop of `txn_commit` or `txn_abort`. -/
  | release (id : UInt32) (keys : List LockKey)
  deriving DecidableEq, Repr

/-- The locks a thread answers for on behalf of a transaction. -/
def TxnPc.loose (id : UInt32) : TxnPc → List LockKey
  | .register id' key _ => if id' = id then [key] else []
  | .orphan id' key => if id' = id then [key] else []
  | .release id' keys => if id' = id then keys else []
  | _ => []

/-- The thread is in `txn_lock` for this record, up to the registration. -/
def TxnPc.Locking (pc : TxnPc) (id : UInt32) (key : LockKey) : Prop :=
  ∃ mode, pc = .acquire id key mode ∨ pc = .waiting id key mode ∨ pc = .register id key mode

/-- The managers and the threads.  `drives` is the thread that began a transaction, `inForce` the
`txn_lock` calls that returned `0` for a transaction that has not ended, and `begins` the number of
`txn_begin` calls. -/
structure TxnSys where
  tm : TxnManager
  locks : LockSys Owner
  procs : Nat → TxnPc
  drives : UInt32 → Option Nat
  inForce : List (UInt32 × LockKey × LockMode)
  begins : Nat

namespace TxnSys

/-- `lock_mgr_create` and `txn_mgr_create`; no thread is in a call. -/
def init : TxnSys := ⟨txnMgrCreate, LockSys.create, fun _ => .idle, fun _ => none, [], 0⟩

/-- A critical section. -/
inductive Act where
  /-- Thread `t` calls `txn_begin`. -/
  | begin (t : Nat)
  /-- Thread `t` calls `txn_lock`: its first section. -/
  | lock (t : Nat) (id : UInt32) (key : LockKey) (mode : LockMode)
  /-- Thread `t` calls `txn_commit`: its first section, and whether logging and flushing work. -/
  | commit (t : Nat) (id : UInt32) (logged flushed : Bool)
  /-- Thread `t` calls `txn_abort`: its first section. -/
  | abort (t : Nat) (id : UInt32)
  /-- The next section of the call thread `t` is in; `alloc` is what `calloc` would return. -/
  | run (t : Nat) (alloc : Option Nat)
  deriving DecidableEq, Repr

/-- Thread `t` goes to `pc`. -/
def goto (s : TxnSys) (t : Nat) (pc : TxnPc) : TxnSys :=
  { s with procs := Function.update s.procs t pc }

/-- Pass locks from one owner to another. -/
def handOver (gs : List (Grant Owner)) (src dst : Owner) : List (Grant Owner) :=
  gs.map (fun g => if g.owner = src then { g with owner := dst } else g)

/-- Pass all locks of one owner to another. -/
def pass (s : TxnSys) (src dst : Owner) : TxnSys :=
  { s with locks := { s.locks with grants := handOver s.locks.grants src dst } }

/-- The slot of `id` was freed by thread `t`, which has to release `keys`. -/
def ended (s : TxnSys) (t : Nat) (id : UInt32) (tm : TxnManager) (keys : List LockKey) : TxnSys :=
  { s.pass (.txn id) (.thread t id) with
    tm := tm
    procs := Function.update s.procs t (.release id keys)
    inForce := s.inForce.filter (fun c => c.1 != id) }

/-- The critical section of `txn_abort` in thread `t`. -/
def abortSection (s : TxnSys) (t : Nat) (id : UInt32) : TxnSys :=
  match txnAbortSection s.tm id with
  | (none, _) => s.goto t .idle
  | (some keys, tm) => s.ended t id tm keys

/-- Where `txn_lock` goes on after a section of `lock_mgr_lock`. -/
def afterLock (id : UInt32) (key : LockKey) (mode : LockMode) : LockTable.LockOutcome → TxnPc
  | .noMemory => .idle
  | .waiting _ => .waiting id key mode
  | .granted => .register id key mode

/-- The next section of the call thread `t` is in. -/
def runThread (s : TxnSys) (t : Nat) (alloc : Option Nat) : Option TxnSys :=
  match s.procs t with
  | .idle => none
  | .acquire id key mode =>
    let r := s.locks.enter t (.thread t id) alloc key mode
    some { s.goto t (afterLock id key mode r.1) with locks := r.2 }
  | .waiting id key mode =>
    match s.locks.sleepers.find? (fun w => w.thread == t) with
    | none => none
    | some w =>
      (s.locks.resume w (.thread t id)).map (fun r =>
        { s.goto t (afterLock id key mode r.1) with locks := r.2 })
  | .register id key mode =>
    match txnLockRegister s.tm id key with
    | some tm =>
      some { (s.pass (.thread t id) (.txn id)).goto t .idle with
        tm := tm, inForce := (id, key, mode) :: s.inForce }
    | none => some (s.goto t (.orphan id key))
  | .orphan id key => some { s.goto t .idle with locks := s.locks.unlock (.thread t id) key }
  | .aborting id => some (s.abortSection t id)
  | .release _ [] => some (s.goto t .idle)
  | .release id (key :: keys) =>
    some { s.goto t (.release id keys) with locks := s.locks.unlock (.thread t id) key }

/-- One critical section; a call starts in a thread that is in none.  `txn_begin` is one step although it reads
the id it returns after its section: threads abort the transactions they have been told of, so the slot still
has the id then. -/
def step (s : TxnSys) : Act → Option TxnSys
  | .begin t =>
    if s.procs t ≠ .idle then none
    else
      let r := txnBegin s.tm
      some { s with
        tm := r.2
        drives := if r.1 = INVALID_TXN_ID then s.drives else Function.update s.drives r.1 (some t)
        begins := s.begins + 1 }
  | .lock t id key mode =>
    if s.procs t ≠ .idle then none
    else
      match txnLockCheck s.tm id key with
      | .refused => some s
      | .held => some { s with inForce := (id, key, mode) :: s.inForce }
      | .acquire => some (s.goto t (.acquire id key mode))
  | .commit t id logged flushed =>
    if s.procs t ≠ .idle then none
    else
      match txnCommitSection s.tm id logged flushed with
      | (.refused, _) => some s
      | (.failed, _) => some (s.goto t (.aborting id))
      | (.committed keys, tm) => some (s.ended t id tm keys)
  | .abort t id => if s.procs t ≠ .idle then none else some (s.abortSection t id)
  | .run t alloc => s.runThread t alloc

/-! ## Conditions on a step -/

/-- A transaction requests its locks from the thread that began it, and `calloc` returns unused
memory. -/
def Driven (s : TxnSys) : Act → Prop
  | .lock t id _ _ => s.drives id = some t
  | .run _ alloc => ∀ a ∈ alloc, s.locks.table.Fresh a
  | _ => True

/-- The id `txn_begin` hands out is neither active nor still in a `txn_lock` call. -/
def FreshBegin (s : TxnSys) : Act → Prop
  | .begin _ => ¬ s.tm.Active (txnBegin s.tm).1 ∧
      ∀ u key, ¬ (s.procs u).Locking (txnBegin s.tm).1 key
  | _ => True

/-! ## The invariant -/

/-- The granted locks of an owner on a record. -/
def tokens (gs : List (Grant Owner)) (o : Owner) (key : LockKey) : Nat :=
  gs.countP (fun g => g.owner == o && g.key == key)

/-- The locks an owner answers for. -/
def answersFor (s : TxnSys) : Owner → List LockKey
  | .txn id => s.tm.locksOf id
  | .thread t id => (s.procs t).loose id

/-- Every granted lock is in exactly one place. -/
structure Inv (s : TxnSys) : Prop where
  locks : s.locks.Inv
  owned : ∀ o key, tokens s.locks.grants o key = (s.answersFor o).count key
  asleep : ∀ w ∈ s.locks.sleepers, ∃ id, s.procs w.thread = .waiting id w.key w.mode
  distinct : s.tm.DistinctIds
  next : s.tm.nextTxnId ≠ INVALID_TXN_ID
  nonzero : ∀ id, s.tm.Active id → id ≠ INVALID_TXN_ID
  room : ∀ id, (s.tm.locksOf id).length ≤ MAX_LOCKS_PER_TXN
  locking : ∀ t id key, (s.procs t).Locking id key →
    s.drives id = some t ∧ (s.tm.locksOf id).length < MAX_LOCKS_PER_TXN

theorem Inv.init : TxnSys.init.Inv := by
  have hinactive : ∀ id, ¬ txnMgrCreate.Active id := by
    rintro id ⟨i, t, ht, -⟩
    cases ht
  have hlocks : ∀ id, txnMgrCreate.locksOf id = [] :=
    fun id => TxnManager.locksOf_inactive (hinactive id)
  refine ⟨LockSys.Inv.create, fun o key => ?_, fun w hw => ?_, fun i j t u h => ?_, by decide,
    fun id h => absurd h (hinactive id), fun id => ?_, fun t id key h => ?_⟩
  · cases o with
    | txn id =>
      show 0 = (txnMgrCreate.locksOf id).count key
      rw [hlocks id]
      rfl
    | thread t id => rfl
  · simp [TxnSys.init, LockSys.create] at hw
  · cases h
  · show (txnMgrCreate.locksOf id).length ≤ _
    rw [hlocks id]
    exact Nat.zero_le _
  · simp [TxnPc.Locking, TxnSys.init] at h

/-- A thread that is not in a wait loop is in no sleeper's place. -/
theorem Inv.awake {s : TxnSys} (h : s.Inv) {t : Nat}
    (ht : ∀ id key mode, s.procs t ≠ .waiting id key mode) : ¬ s.locks.Asleep t := by
  rintro ⟨w, hw, rfl⟩
  obtain ⟨id, hpc⟩ := h.asleep w hw
  exact ht id w.key w.mode hpc

theorem answersFor_goto {s : TxnSys} {t : Nat} {pc : TxnPc} {o : Owner}
    (hloose : ∀ id, (s.procs t).loose id = pc.loose id) :
    (s.goto t pc).answersFor o = s.answersFor o := by
  cases o with
  | txn id => rfl
  | thread u id =>
    show (Function.update s.procs t pc u).loose id = (s.procs u).loose id
    by_cases hu : u = t
    · subst hu
      rw [Function.update_self, hloose]
    · rw [Function.update_of_ne hu]

/-- A thread moves on without a change to the locks it answers for. -/
theorem Inv.goto {s : TxnSys} (h : s.Inv) {t : Nat} {pc : TxnPc}
    (hawake : ∀ id key mode, s.procs t ≠ .waiting id key mode)
    (hloose : ∀ id, (s.procs t).loose id = pc.loose id)
    (hlock : ∀ id key, pc.Locking id key →
      s.drives id = some t ∧ (s.tm.locksOf id).length < MAX_LOCKS_PER_TXN) :
    (s.goto t pc).Inv := by
  refine ⟨h.locks, fun o key => ?_, fun w hw => ?_, h.distinct, h.next, h.nonzero, h.room,
    fun u id key hu => ?_⟩
  · rw [answersFor_goto hloose]
    exact h.owned o key
  · have hne : w.thread ≠ t := fun hwt => h.awake hawake ⟨w, hw, hwt⟩
    obtain ⟨id, hpc⟩ := h.asleep w hw
    exact ⟨id, by show Function.update s.procs t pc w.thread = _; rw [Function.update_of_ne hne, hpc]⟩
  · have hu' : (Function.update s.procs t pc u).Locking id key := hu
    by_cases hut : u = t
    · subst hut
      rw [Function.update_self] at hu'
      exact hlock id key hu'
    · rw [Function.update_of_ne hut] at hu'
      exact h.locking u id key hu'

/-! ## Locks changing hands -/

theorem tokens_cons (g : Grant Owner) (gs : List (Grant Owner)) (o : Owner) (key : LockKey) :
    tokens (g :: gs) o key = tokens gs o key + if g.owner = o ∧ g.key = key then 1 else 0 := by
  unfold tokens
  rw [List.countP_cons]
  simp

theorem tokens_handOver {src dst : Owner} (hne : src ≠ dst) (gs : List (Grant Owner)) (o : Owner)
    (key : LockKey) :
    tokens (handOver gs src dst) o key =
      if o = src then 0
      else if o = dst then tokens gs src key + tokens gs dst key
      else tokens gs o key := by
  induction gs with
  | nil => simp [tokens, handOver]
  | cons g gs ih =>
    have hcons : handOver (g :: gs) src dst =
        (if g.owner = src then { g with owner := dst } else g) :: handOver gs src dst := rfl
    rw [hcons, tokens_cons, ih, tokens_cons, tokens_cons, tokens_cons]
    by_cases hg : g.owner = src
    · rw [if_pos hg]
      by_cases h1 : o = src
      · subst h1
        simp [hne.symm]
      · by_cases h2 : o = dst
        · subst h2
          have hso : ¬ src = o := fun h => h1 h.symm
          simp only [h1, hso, hg, if_false, if_true, true_and, false_and]
          omega
        · have h2' : ¬ dst = o := fun h => h2 h.symm
          have hgo : ¬ g.owner = o := fun h => h1 (by rw [← h, hg])
          simp [h1, h2, h2', hgo]
    · rw [if_neg hg]
      by_cases h1 : o = src
      · subst h1
        simp [hg]
      · by_cases h2 : o = dst
        · subst h2
          simp only [h1, hg, if_false, if_true, false_and]
          omega
        · simp [h1, h2]

/-- The lock manager does not see locks change hands. -/
theorem handOver_inv {l : LockSys Owner} (h : l.Inv) (src dst : Owner) :
    LockSys.Inv { l with grants := handOver l.grants src dst } := by
  refine h.retag ?_
  have hmap : (handOver l.grants src dst).map (fun g => (g.key, g.mode)) =
      l.grants.map (fun g => (g.key, g.mode)) := by
    unfold handOver
    rw [List.map_map]
    refine List.map_congr_left (fun g _ => ?_)
    simp only [Function.comp_apply]
    split <;> rfl
  rw [hmap]

theorem tokens_eraseP {gs : List (Grant Owner)} {o : Owner} {key : LockKey}
    (h : 0 < tokens gs o key) (o' : Owner) (key' : LockKey) :
    tokens (gs.eraseP (fun g => g.owner == o && g.key == key)) o' key' =
      tokens gs o' key' - if o' = o ∧ key' = key then 1 else 0 := by
  unfold tokens at h ⊢
  rw [List.countP_pos_iff] at h
  obtain ⟨g, hg, hp⟩ := h
  obtain ⟨g', l₁, l₂, -, hp', hl, he⟩ := List.exists_of_eraseP
    (p := fun g => g.owner == o && g.key == key) hg hp
  rw [he, hl, List.countP_append, List.countP_append, List.countP_cons]
  simp only [Bool.and_eq_true, beq_iff_eq] at hp'
  obtain ⟨rfl, rfl⟩ := hp'
  by_cases hk : o' = g'.owner ∧ key' = g'.key
  · obtain ⟨rfl, rfl⟩ := hk
    simp
  · have hk' : ¬ (g'.owner = o' ∧ g'.key = key') := fun h => hk ⟨h.1.symm, h.2.symm⟩
    simp [hk, hk']

/-! ## The sections keep the invariant -/

/-- A section of `lock_mgr_lock` in a thread that answers for nothing. -/
theorem Inv.settled {s : TxnSys} (h : s.Inv) {t : Nat} {id : UInt32} {key : LockKey}
    {mode : LockMode} (hlocking : (s.procs t).Locking id key)
    (hloose : ∀ id, (s.procs t).loose id = []) {l : LockSys Owner}
    (hgrants : l.grants = s.locks.grants)
    (hsleepers : ∀ w ∈ l.sleepers, w ∈ s.locks.sleepers ∧ w.thread ≠ t)
    {r : LockTable.LockOutcome × LockTable}
    (hinv : (l.settle t (.thread t id) key mode r).Inv) :
    TxnSys.Inv { s.goto t (afterLock id key mode r.1) with
      locks := l.settle t (.thread t id) key mode r } := by
  obtain ⟨out, tbl⟩ := r
  refine ⟨hinv, fun o k => ?_, fun w hw => ?_, h.distinct, h.next, h.nonzero, h.room,
    fun u id' key' hu => ?_⟩
  · -- only a granted lock is new, and the thread answers for it
    have hold := h.owned o k
    rw [← hgrants] at hold
    cases out with
    | noMemory =>
      show tokens l.grants o k = ((s.goto t .idle).answersFor o).count k
      rw [hold, answersFor_goto (fun id => by rw [hloose]; rfl)]
    | waiting a =>
      show tokens l.grants o k = ((s.goto t (.waiting id key mode)).answersFor o).count k
      rw [hold, answersFor_goto (fun id => by rw [hloose]; rfl)]
    | granted =>
      show tokens (⟨.thread t id, key, mode⟩ :: l.grants) o k =
        ((s.goto t (.register id key mode)).answersFor o).count k
      rw [tokens_cons, hold]
      cases o with
      | txn id' =>
        simp only [reduceCtorEq, false_and, if_false, Nat.add_zero]
        rfl
      | thread u id' =>
        show ((s.procs u).loose id').count k + _ =
          ((Function.update s.procs t (.register id key mode) u).loose id').count k
        by_cases hu : u = t
        · subst hu
          rw [Function.update_self, hloose]
          by_cases hid : id = id'
          · simp [hid, TxnPc.loose, List.count_singleton]
          · simp [hid, TxnPc.loose]
        · have hu' : ¬ t = u := fun h => hu h.symm
          rw [Function.update_of_ne hu]
          simp [hu']
  · cases out with
    | waiting a =>
      rcases List.mem_cons.mp hw with rfl | hw
      · exact ⟨id, Function.update_self _ _ _⟩
      · obtain ⟨hw', hne⟩ := hsleepers w hw
        obtain ⟨id', hpc⟩ := h.asleep w hw'
        exact ⟨id', by rw [← hpc]; exact Function.update_of_ne hne _ _⟩
    | noMemory =>
      obtain ⟨hw', hne⟩ := hsleepers w hw
      obtain ⟨id', hpc⟩ := h.asleep w hw'
      exact ⟨id', by rw [← hpc]; exact Function.update_of_ne hne _ _⟩
    | granted =>
      obtain ⟨hw', hne⟩ := hsleepers w hw
      obtain ⟨id', hpc⟩ := h.asleep w hw'
      exact ⟨id', by rw [← hpc]; exact Function.update_of_ne hne _ _⟩
  · have hu' : (Function.update s.procs t (afterLock id key mode out) u).Locking id' key' := hu
    by_cases hut : u = t
    · subst hut
      rw [Function.update_self] at hu'
      have hid : id' = id := by
        obtain ⟨m, hm⟩ := hu'
        cases out with
        | noMemory => simp [afterLock] at hm
        | waiting a => simp [afterLock] at hm; exact hm.1.symm
        | granted => simp [afterLock] at hm; exact hm.1.symm
      rw [hid]
      exact h.locking u id key hlocking
    · rw [Function.update_of_ne hut] at hu'
      exact h.locking u id' key' hu'

/-- A thread hands a lock back. -/
theorem Inv.unlocked {s : TxnSys} (h : s.Inv) {t : Nat} {id : UInt32} {key : LockKey}
    {keys : List LockKey} {pc : TxnPc}
    (hawake : ∀ id key mode, s.procs t ≠ .waiting id key mode)
    (hold : ∀ id', (s.procs t).loose id' = if id = id' then key :: keys else [])
    (hnew : ∀ id', pc.loose id' = if id = id' then keys else [])
    (hout : ∀ id key, ¬ pc.Locking id key) :
    TxnSys.Inv { s.goto t pc with locks := s.locks.unlock (.thread t id) key } := by
  have hpos : 0 < tokens s.locks.grants (.thread t id) key := by
    rw [h.owned]
    show 0 < ((s.procs t).loose id).count key
    rw [hold, if_pos rfl, List.count_cons_self]
    omega
  have hheld : ∃ g ∈ s.locks.grants, g.owner = .thread t id ∧ g.key = key := by
    unfold tokens at hpos
    rw [List.countP_pos_iff] at hpos
    obtain ⟨g, hg, hgk⟩ := hpos
    exact ⟨g, hg, by simpa using hgk⟩
  refine ⟨(h.locks.unlock_spec hheld).2.1, fun o k => ?_, fun w hw => ?_, h.distinct, h.next,
    h.nonzero, h.room, fun u id' key' hu => ?_⟩
  · show tokens (s.locks.grants.eraseP _) o k = ((s.goto t pc).answersFor o).count k
    rw [tokens_eraseP hpos, h.owned]
    cases o with
    | txn id' =>
      simp only [reduceCtorEq, false_and, if_false, Nat.sub_zero]
      rfl
    | thread u id' =>
      show ((s.procs u).loose id').count k - _ =
        ((Function.update s.procs t pc u).loose id').count k
      by_cases hu : u = t
      · subst hu
        rw [Function.update_self, hold, hnew]
        by_cases hid : id = id'
        · subst hid
          by_cases hk : k = key
          · subst hk
            simp
          · have hk' : ¬ key = k := fun h => hk h.symm
            simp [hk, hk']
        · simp [hid]
      · rw [Function.update_of_ne hu]
        simp [hu]
  · obtain ⟨v, hv, hvt, hvk, hvm, -, -⟩ := LockSys.mem_broadcast hw
    have hne : w.thread ≠ t := by
      rw [← hvt]
      exact fun hwt => h.awake hawake ⟨v, hv, hwt⟩
    obtain ⟨id', hpc⟩ := h.asleep v hv
    rw [hvt, hvk, hvm] at hpc
    exact ⟨id', by rw [← hpc]; exact Function.update_of_ne hne _ _⟩
  · have hu' : (Function.update s.procs t pc u).Locking id' key' := hu
    by_cases hut : u = t
    · subst hut
      rw [Function.update_self] at hu'
      exact absurd hu' (hout id' key')
    · rw [Function.update_of_ne hut] at hu'
      exact h.locking u id' key' hu'

/-- The second section of `txn_lock` when the transaction is still active. -/
theorem Inv.registered {s : TxnSys} (h : s.Inv) {t : Nat} {id : UInt32} {key : LockKey}
    {mode : LockMode} {tm : TxnManager} (hpc : s.procs t = .register id key mode)
    (hreg : txnLockRegister s.tm id key = some tm) (c : UInt32 × LockKey × LockMode) :
    TxnSys.Inv { (s.pass (.thread t id) (.txn id)).goto t .idle with
      tm := tm, inForce := c :: s.inForce } := by
  obtain ⟨hdistinct, hnext, hactive⟩ := TxnManager.txnLockRegister_ids h.distinct hreg
  have hlocks := TxnManager.locksOf_register h.distinct hreg
  obtain ⟨hdrives, hroom⟩ := h.locking t id key ⟨mode, Or.inr (Or.inr hpc)⟩
  have hawake : ∀ id key mode, s.procs t ≠ .waiting id key mode := by
    intro _ _ _ hw
    rw [hpc] at hw
    cases hw
  refine ⟨handOver_inv h.locks _ _, fun o k => ?_, fun w hw => ?_, hdistinct, ?_, fun id' ha => ?_,
    fun id' => ?_, fun u id' key' hu => ?_⟩
  · show tokens (handOver s.locks.grants (.thread t id) (.txn id)) o k = _
    rw [tokens_handOver (by simp)]
    cases o with
    | txn id' =>
      show (if Owner.txn id' = .thread t id then _ else _) = (tm.locksOf id').count k
      rw [if_neg (by simp), hlocks]
      by_cases hid : id' = id
      · subst hid
        rw [if_pos rfl, if_pos rfl, h.owned, h.owned, List.count_append]
        show ((s.procs t).loose id').count k + (s.tm.locksOf id').count k = _
        rw [hpc]
        simp only [TxnPc.loose, if_true]
        omega
      · rw [if_neg (by simpa using hid), if_neg hid, h.owned]
        rfl
    | thread u id' =>
      show (if Owner.thread u id' = .thread t id then _ else _) =
        ((Function.update s.procs t .idle u).loose id').count k
      by_cases hu : u = t
      · subst hu
        rw [Function.update_self]
        by_cases hid : id' = id
        · subst hid
          rw [if_pos rfl]
          rfl
        · have hid' : ¬ id = id' := fun h => hid h.symm
          rw [if_neg (by simpa using hid), if_neg (by simp), h.owned]
          show ((s.procs u).loose id').count k = _
          rw [hpc]
          simp [TxnPc.loose, hid']
      · rw [if_neg (by simp [hu]), if_neg (by simp), h.owned, Function.update_of_ne hu]
        rfl
  · have hne : w.thread ≠ t := fun hwt => h.awake hawake ⟨w, hw, hwt⟩
    obtain ⟨id', hpc'⟩ := h.asleep w hw
    exact ⟨id', by rw [← hpc']; exact Function.update_of_ne hne _ _⟩
  · rw [hnext]
    exact h.next
  · exact h.nonzero id' ((hactive id').mp ha)
  · show (tm.locksOf id').length ≤ _
    rw [hlocks]
    split
    · rw [List.length_append]
      exact hroom
    · exact h.room id'
  · have hu' : (Function.update s.procs t TxnPc.idle u).Locking id' key' := hu
    by_cases hut : u = t
    · subst hut
      rw [Function.update_self] at hu'
      simp [TxnPc.Locking] at hu'
    · rw [Function.update_of_ne hut] at hu'
      obtain ⟨hd, hr⟩ := h.locking u id' key' hu'
      refine ⟨hd, ?_⟩
      show (tm.locksOf id').length < _
      -- another thread cannot be locking for this transaction
      rw [hlocks, if_neg (fun hid => hut (by rw [hid, hdrives] at hd; exact (Option.some.inj hd).symm))]
      exact hr

/-- The section that ends a transaction, in a thread that answers for nothing. -/
theorem Inv.ended {s : TxnSys} (h : s.Inv) {t : Nat} {id : UInt32} {i : Fin MAX_ACTIVE_TXNS}
    (hf : findTxnLocked s.tm id = some i)
    (hawake : ∀ id key mode, s.procs t ≠ .waiting id key mode)
    (hloose : ∀ id, (s.procs t).loose id = []) :
    (s.ended t id (s.tm.setSlot i none) (s.tm.locksAt i)).Inv := by
  have hlocks := TxnManager.locksOf_free h.distinct hf
  have hkeys : s.tm.locksOf id = s.tm.locksAt i := by
    unfold TxnManager.locksOf
    rw [hf]
  refine ⟨handOver_inv h.locks _ _, fun o k => ?_, fun w hw => ?_,
    TxnManager.setSlot_none_distinct h.distinct i, h.next, fun id' ha => ?_, fun id' => ?_,
    fun u id' key' hu => ?_⟩
  · show tokens (handOver s.locks.grants (.txn id) (.thread t id)) o k = _
    rw [tokens_handOver (by simp)]
    cases o with
    | txn id' =>
      show _ = ((s.tm.setSlot i none).locksOf id').count k
      rw [hlocks]
      by_cases hid : id' = id
      · subst hid
        simp
      · rw [if_neg (by simpa using hid), if_neg (by simp), if_neg hid, h.owned]
        rfl
    | thread u id' =>
      show (if Owner.thread u id' = .txn id then _ else _) =
        ((Function.update s.procs t (.release id (s.tm.locksAt i)) u).loose id').count k
      rw [if_neg (by simp)]
      by_cases hu : u = t
      · subst hu
        rw [Function.update_self]
        by_cases hid : id' = id
        · subst hid
          rw [if_pos rfl, h.owned, h.owned]
          show (s.tm.locksOf id').count k + ((s.procs u).loose id').count k = _
          rw [hloose, hkeys]
          simp [TxnPc.loose]
        · have hid' : ¬ id = id' := fun h => hid h.symm
          rw [if_neg (by simpa using hid), h.owned]
          show ((s.procs u).loose id').count k = _
          rw [hloose]
          simp [TxnPc.loose, hid']
      · rw [if_neg (by simp [hu]), h.owned, Function.update_of_ne hu]
        rfl
  · have hne : w.thread ≠ t := fun hwt => h.awake hawake ⟨w, hw, hwt⟩
    obtain ⟨id', hpc⟩ := h.asleep w hw
    exact ⟨id', by rw [← hpc]; exact Function.update_of_ne hne _ _⟩
  · exact h.nonzero id' (TxnManager.setSlot_none_active ha)
  · show ((s.tm.setSlot i none).locksOf id').length ≤ _
    rw [hlocks]
    split
    · exact Nat.zero_le _
    · exact h.room id'
  · have hu' : (Function.update s.procs t (.release id (s.tm.locksAt i)) u).Locking id' key' := hu
    by_cases hut : u = t
    · subst hut
      rw [Function.update_self] at hu'
      simp [TxnPc.Locking] at hu'
    · rw [Function.update_of_ne hut] at hu'
      obtain ⟨hd, hr⟩ := h.locking u id' key' hu'
      refine ⟨hd, ?_⟩
      show ((s.tm.setSlot i none).locksOf id').length < _
      rw [hlocks]
      split
      · decide
      · exact hr

/-- `txn_begin` with a fresh id. -/
theorem Inv.begun {s : TxnSys} (h : s.Inv) (t : Nat)
    (hinactive : ¬ s.tm.Active (txnBegin s.tm).1)
    (hunused : ∀ u key, ¬ (s.procs u).Locking (txnBegin s.tm).1 key) :
    TxnSys.Inv { s with
      tm := (txnBegin s.tm).2
      drives := if (txnBegin s.tm).1 = INVALID_TXN_ID then s.drives
        else Function.update s.drives (txnBegin s.tm).1 (some t)
      begins := s.begins + 1 } := by
  have hlocks := TxnManager.locksOf_begin h.distinct hinactive
  refine ⟨h.locks, fun o k => ?_, h.asleep, TxnManager.txnBegin_distinct h.distinct hinactive, ?_,
    fun id ha => ?_, fun id => ?_, fun u id key hu => ?_⟩
  · show tokens s.locks.grants o k = _
    rw [h.owned]
    cases o with
    | txn id =>
      show (s.tm.locksOf id).count k = ((txnBegin s.tm).2.locksOf id).count k
      rw [hlocks]
    | thread u id => rfl
  · show (txnBegin s.tm).2.nextTxnId ≠ _
    unfold txnBegin
    split
    · exact h.next
    · exact bumpTxnId_ne _
  · rcases TxnManager.txnBegin_active ha with ha | ⟨ha, -⟩
    · exact h.nonzero id ha
    · rw [ha]
      exact h.next
  · show ((txnBegin s.tm).2.locksOf id).length ≤ _
    rw [hlocks]
    exact h.room id
  · obtain ⟨hd, hr⟩ := h.locking u id key hu
    have hid : id ≠ (txnBegin s.tm).1 := by
      rintro rfl
      exact hunused u key hu
    refine ⟨?_, ?_⟩
    · show (if _ then s.drives else _) id = some u
      split
      · exact hd
      · rw [Function.update_of_ne hid]
        exact hd
    · show ((txnBegin s.tm).2.locksOf id).length < _
      rw [hlocks]
      exact hr

/-- The section of `txn_abort`, in a thread that answers for nothing. -/
theorem Inv.abortSection {s : TxnSys} (h : s.Inv) {t : Nat} (id : UInt32)
    (hawake : ∀ id key mode, s.procs t ≠ .waiting id key mode)
    (hloose : ∀ id, (s.procs t).loose id = []) : (s.abortSection t id).Inv := by
  unfold TxnSys.abortSection txnAbortSection
  cases hf : findTxnLocked s.tm id with
  | none =>
    exact h.goto hawake (fun id => by rw [hloose]; rfl) (fun id key hl => by
      simp [TxnPc.Locking] at hl)
  | some i => exact h.ended hf hawake hloose

theorem Inv.runThread {s s' : TxnSys} (h : s.Inv) {t : Nat} {alloc : Option Nat}
    (hfresh : ∀ a ∈ alloc, s.locks.table.Fresh a) (hs : s.runThread t alloc = some s') :
    s'.Inv := by
  unfold TxnSys.runThread at hs
  cases hpc : s.procs t with
  | idle =>
    rw [hpc] at hs
    cases hs
  | acquire id key mode =>
    rw [hpc] at hs
    cases hs
    have hawake : ¬ s.locks.Asleep t := h.awake (fun _ _ _ hw => by rw [hpc] at hw; cases hw)
    exact h.settled (l := s.locks) (by rw [hpc]; exact ⟨mode, Or.inl rfl⟩)
      (fun id => by rw [hpc]; rfl) rfl (fun w hw => ⟨hw, fun hwt => hawake ⟨w, hw, hwt⟩⟩)
      (h.locks.enter hawake (.thread t id) hfresh key mode)
  | waiting id key mode =>
    rw [hpc] at hs
    simp only at hs
    split at hs
    · cases hs
    · rename_i w hfind
      have hw := List.mem_of_find?_eq_some hfind
      have hwt : w.thread = t := by simpa using List.find?_some hfind
      -- the sleeper is this very call
      obtain ⟨id', hpc'⟩ := h.asleep w hw
      rw [hwt, hpc] at hpc'
      cases hpc'
      obtain ⟨r, hr, hinv⟩ := h.locks.resume hw (.thread t id)
      rw [hr, Option.map_some, Option.some.injEq] at hs
      subst hs
      unfold LockSys.resume at hr
      obtain ⟨q, -, rfl⟩ := Option.map_eq_some_iff.mp hr
      rw [hwt] at hinv ⊢
      refine h.settled (l := { s.locks with sleepers := s.locks.sleepers.erase w })
        (by rw [hpc]; exact ⟨w.mode, Or.inr (Or.inl rfl)⟩) (fun id => by rw [hpc]; rfl) rfl ?_ hinv
      intro v hv
      refine ⟨List.mem_of_mem_erase hv, fun hvt => ?_⟩
      have hnd := ((List.perm_cons_erase hw).map Sleeper.thread).nodup_iff.mp h.locks.threads
      rw [List.map_cons, List.nodup_cons] at hnd
      exact hnd.1 (List.mem_map.mpr ⟨v, hv, by rw [hvt, hwt]⟩)
  | register id key mode =>
    rw [hpc] at hs
    simp only at hs
    split at hs
    · rename_i tm hreg
      cases hs
      exact h.registered hpc hreg _
    · cases hs
      exact h.goto (fun _ _ _ hw => by rw [hpc] at hw; cases hw) (fun id => by rw [hpc]; rfl)
        (fun id key hl => by simp [TxnPc.Locking] at hl)
  | orphan id key =>
    rw [hpc] at hs
    cases hs
    have hold : ∀ id', (s.procs t).loose id' = if id = id' then key :: [] else [] :=
      fun id' => by rw [hpc]; rfl
    exact h.unlocked (fun _ _ _ hw => by rw [hpc] at hw; cases hw) hold
      (fun id' => by simp [TxnPc.loose]) (fun id key hl => by simp [TxnPc.Locking] at hl)
  | aborting id =>
    rw [hpc] at hs
    cases hs
    exact h.abortSection id (fun _ _ _ hw => by rw [hpc] at hw; cases hw)
      (fun id => by rw [hpc]; rfl)
  | release id keys =>
    rw [hpc] at hs
    have hawake : ∀ id key mode, s.procs t ≠ .waiting id key mode := by
      intro _ _ _ hw
      rw [hpc] at hw
      cases hw
    cases keys with
    | nil =>
      cases hs
      exact h.goto hawake (fun id => by rw [hpc]; simp [TxnPc.loose])
        (fun id key hl => by simp [TxnPc.Locking] at hl)
    | cons key keys =>
      cases hs
      exact h.unlocked hawake (fun id' => by rw [hpc]; rfl) (fun id' => rfl)
        (fun id key hl => by simp [TxnPc.Locking] at hl)

/-- **Every critical section keeps the invariant.** -/
theorem Inv.step {s s' : TxnSys} {a : Act} (h : s.Inv) (hd : Driven s a) (hf : FreshBegin s a)
    (hs : s.step a = some s') : s'.Inv := by
  cases a with
  | begin t =>
    simp only [TxnSys.step] at hs
    split at hs
    · cases hs
    · cases hs
      exact h.begun t hf.1 hf.2
  | lock t id key mode =>
    simp only [TxnSys.step] at hs
    split at hs
    · cases hs
    · rename_i hidle
      have hidle : s.procs t = .idle := by simpa using hidle
      split at hs
      · cases hs
        exact h
      · cases hs
        exact ⟨h.locks, h.owned, h.asleep, h.distinct, h.next, h.nonzero, h.room, h.locking⟩
      · rename_i hcheck
        cases hs
        refine h.goto (fun _ _ _ hw => by rw [hidle] at hw; cases hw)
          (fun id => by rw [hidle]; rfl) (fun id' key' hl => ?_)
        obtain ⟨m, hl | hl | hl⟩ := hl <;> cases hl
        exact ⟨hd, txnLockCheck_room hcheck⟩
  | commit t id logged flushed =>
    simp only [TxnSys.step] at hs
    split at hs
    · cases hs
    · rename_i hidle
      have hidle : s.procs t = .idle := by simpa using hidle
      have hawake : ∀ id key mode, s.procs t ≠ .waiting id key mode := by
        intro _ _ _ hw
        rw [hidle] at hw
        cases hw
      split at hs
      · cases hs
        exact h
      · cases hs
        exact h.goto hawake (fun id => by rw [hidle]; rfl)
          (fun id key hl => by simp [TxnPc.Locking] at hl)
      · rename_i keys tm hsec
        cases hs
        obtain ⟨i, hfind, rfl, rfl⟩ := txnCommitSection_committed hsec
        exact h.ended hfind hawake (fun id => by rw [hidle]; rfl)
  | abort t id =>
    simp only [TxnSys.step] at hs
    split at hs
    · cases hs
    · rename_i hidle
      have hidle : s.procs t = .idle := by simpa using hidle
      cases hs
      exact h.abortSection id (fun _ _ _ hw => by rw [hidle] at hw; cases hw)
        (fun id => by rw [hidle]; rfl)
  | run t alloc => exact h.runThread hd hs

end TxnSys

end Ticketing
