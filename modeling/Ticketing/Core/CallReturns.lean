import Ticketing.Core.BookingAlone

/-!
# Engine calls that return

Total correctness of one call that runs alone: it comes to an end, and what it returns and leaves
satisfies a postcondition.  Storage and log work; whether memory or ids may run out are parameters.

* `Ends`, `Returns` — the weakest precondition of the rest of a call, by recursion on its steps.
* `Shared.Ready`, `Holds` — a free slot and no lock held, and what the transaction of the call has
  taken since.
* `Holds.lock`, `Holds.commit`, `Holds.abort` — one rule for each transaction call.
-/

set_option autoImplicit false

namespace Ticketing

/-! ## Weakest preconditions -/

/-- Storage and log work, and memory runs out only if `m` allows it. -/
def EngineFault.Within (m : Prop) (f : EngineFault) : Prop :=
  f.StorageFine ∧ (f.lockAlloc = false → m)

theorem EngineFault.none_within (m : Prop) : EngineFault.none.Within m :=
  ⟨⟨rfl, rfl, rfl⟩, fun h => by cases h⟩

/-- From here the call returns within `n` steps, and `P` holds of the state it leaves, its result and
`*out_booking_id`; it may get stuck if `q` allows that its tables have no ids left. -/
def Ends (m q : Prop) (c : Call) (now : Int) (P : Shared → EtpResult → Option Nat → Prop) :
    Nat → Shared → Pc → Prop
  | 0, _, _ => False
  | n + 1, s, pc => ∀ f : EngineFault, f.Within m →
    match pcStep c (callEnv c s pc now f) s pc with
    | none => q
    | some (s', .goto pc') => Ends m q c now P n s' pc'
    | some (s', .ret rc out) => P s' rc out

/-- From here the call returns. -/
def Returns (m q : Prop) (c : Call) (now : Int) (P : Shared → EtpResult → Option Nat → Prop)
    (s : Shared) (pc : Pc) : Prop :=
  ∃ n, Ends m q c now P n s pc

section Rules

variable {m q : Prop} {c : Call} {now : Int} {P Q : Shared → EtpResult → Option Nat → Prop}
  {s s' : Shared} {pc pc' : Pc}

theorem Ends.mono {n n' : Nat} (h : Ends m q c now P n s pc) (hn : n ≤ n') :
    Ends m q c now P n' s pc := by
  induction n generalizing n' s pc with
  | zero => exact h.elim
  | succ n ih =>
    obtain ⟨k, rfl⟩ : ∃ k, n' = k + 1 := ⟨n' - 1, by omega⟩
    intro f hf
    have hstep := h f hf
    split at hstep
    · exact hstep
    · exact ih hstep (by omega)
    · exact hstep

/-- The call as `runCall` runs it. -/
theorem Ends.runCall {n : Nat} (h : Ends m False c now P n s pc) {fs : List EngineFault}
    (hn : n ≤ fs.length) (hfs : ∀ f ∈ fs, f.Within m) :
    ∃ s' rc out, runCall c now fs s pc = some (s', rc, out) ∧ P s' rc out := by
  induction n generalizing fs s pc with
  | zero => exact h.elim
  | succ n ih =>
    cases fs with
    | nil => cases hn
    | cons f fs =>
      have hstep := h f (hfs f List.mem_cons_self)
      simp only [Ticketing.runCall]
      cases hres : pcStep c (callEnv c s pc now f) s pc with
      | none =>
        rw [hres] at hstep
        exact hstep.elim
      | some r =>
        rw [hres] at hstep
        obtain ⟨s₁, pc₁ | ⟨rc, out⟩⟩ := r
        · exact ih hstep (Nat.le_of_succ_le_succ hn) fun g hg => hfs g (List.mem_cons_of_mem _ hg)
        · exact ⟨s₁, rc, out, rfl, hstep⟩

/-- The call when nothing fails. -/
theorem Ends.replicate {n : Nat} (h : Ends m False c now P n s pc) :
    ∃ s' rc out, Ticketing.runCall c now (List.replicate n .none) s pc = some (s', rc, out) ∧
      P s' rc out := by
  refine h.runCall (Nat.le_of_eq List.length_replicate.symm) (fun f hf => ?_)
  rw [List.eq_of_mem_replicate hf]
  exact EngineFault.none_within m

/-- What a call has left that has returned. -/
theorem Ends.of_runCall {n : Nat} (h : Ends m q c now P n s pc) {fs : List EngineFault}
    (hfs : ∀ f ∈ fs, f.Within m) {rc : EtpResult} {out : Option Nat}
    (hrun : Ticketing.runCall c now fs s pc = some (s', rc, out)) : P s' rc out := by
  induction n generalizing fs s pc with
  | zero => exact h.elim
  | succ n ih =>
    cases fs with
    | nil => cases hrun
    | cons f fs =>
      have hstep := h f (hfs f List.mem_cons_self)
      simp only [Ticketing.runCall] at hrun
      split at hrun
      · cases hrun
      · rename_i s₁ pc₁ heq
        rw [heq] at hstep
        exact ih hstep (fun g hg => hfs g (List.mem_cons_of_mem _ hg)) hrun
      · rename_i s₁ rc₁ out₁ heq
        rw [heq] at hstep
        cases hrun
        exact hstep

/-- The environment of a step in which storage and log work. -/
theorem callEnv_within {f : EngineFault} (hf : f.Within m) :
    callEnv c s pc now f = { Env.fine now with lockAlloc := f.lockAlloc } := by
  obtain ⟨⟨htable, hlogged, hflushed⟩, -⟩ := hf
  unfold callEnv Env.fine
  rw [htable, hlogged, hflushed]

/-- One step that does not allocate. -/
theorem Returns.step
    (hs : ∀ a, pcStep c { Env.fine now with lockAlloc := a } s pc = some (s', .goto pc'))
    (h : Returns m q c now P s' pc') : Returns m q c now P s pc := by
  obtain ⟨n, hn⟩ := h
  refine ⟨n + 1, fun f hf => ?_⟩
  rw [callEnv_within hf, hs]
  exact hn

/-- The last step. -/
theorem Returns.ret {rc : EtpResult} {out : Option Nat}
    (hs : ∀ a, pcStep c { Env.fine now with lockAlloc := a } s pc = some (s', .ret rc out))
    (h : P s' rc out) : Returns m q c now P s pc := by
  refine ⟨1, fun f hf => ?_⟩
  rw [callEnv_within hf, hs]
  exact h

/-- A table without ids left. -/
theorem Returns.full {txn : UInt32} {ts : TableStep}
    (hs : tableStep c (Env.fine now) s.db txn ts = none) (hq : q) :
    Returns m q c now P s (.table txn ts) := by
  refine ⟨1, fun f hf => ?_⟩
  have henv : tableStep c { Env.fine now with lockAlloc := f.lockAlloc } s.db txn ts = none := by
    rw [← hs]
    exact tableStep_congr (by rfl) (by rfl) ts
  rw [callEnv_within hf, pcStep, henv]
  exact hq

/-- A table call, with the local code after it. -/
theorem Returns.table {txn : UInt32} {ts : TableStep} {db' : Db}
    (hs : tableStep c (Env.fine now) s.db txn ts = some (db', pc'))
    (h : Returns m q c now P { s with db := db' } pc') : Returns m q c now P s (.table txn ts) := by
  refine Returns.step (fun a => ?_) h
  have henv : tableStep c { Env.fine now with lockAlloc := a } s.db txn ts = some (db', pc') := by
    rw [← hs]
    exact tableStep_congr (by rfl) (by rfl) ts
  rw [pcStep, henv]
  rfl

/-- `lock_mgr_lock` on a free lock: taken, or refused for want of memory. -/
theorem Returns.acquire {txn : UInt32} {site : LockSite} {locks : LockManager}
    (hs : lockMgrLock s.locks (lockKey c site) .exclusive = some locks)
    (h : Returns m q c now P { s with locks := locks } (.lock .register txn site))
    (hm : m → Returns m q c now P s (.abort txn .errGeneric)) :
    Returns m q c now P s (.lock .acquire txn site) := by
  obtain ⟨n, hn⟩ := h
  by_cases hmem : m
  · obtain ⟨k, hk⟩ := hm hmem
    refine ⟨max n k + 1, fun f hf => ?_⟩
    rw [callEnv_within hf, pcStep, hs]
    cases ha : f.lockAlloc with
    | true => exact hn.mono (Nat.le_max_left _ _)
    | false => exact hk.mono (Nat.le_max_right _ _)
  · refine ⟨n + 1, fun f hf => ?_⟩
    have ha : f.lockAlloc = true := by
      cases hf' : f.lockAlloc with
      | true => rfl
      | false => exact absurd (hf.2 hf') hmem
    rw [callEnv_within hf, pcStep, hs, ha]
    exact hn

/-- More steps than the call takes make no difference. -/
theorem runCall_append {fs : List EngineFault} (gs : List EngineFault)
    {r : Shared × EtpResult × Option Nat} (h : Ticketing.runCall c now fs s pc = some r) :
    Ticketing.runCall c now (fs ++ gs) s pc = some r := by
  induction fs generalizing s pc with
  | nil => cases h
  | cons f fs ih =>
    simp only [List.cons_append, Ticketing.runCall] at h ⊢
    split at h
    · cases h
    · exact ih h
    · exact h

end Rules

/-- Nothing failing, the call runs to its end, returns `rc` and leaves `s'`. -/
def Shared.Completes (s : Shared) (c : Call) (now : Int) (s' : Shared) (rc : EtpResult)
    (out : Option Nat) : Prop :=
  ∃ n, ∀ faults : List EngineFault, n ≤ faults.length → (∀ f ∈ faults, f = .none) →
    runCall c now faults s c.entry = some (s', rc, out)

theorem Returns.completes {c : Call} {now : Int} {P : Shared → EtpResult → Option Nat → Prop}
    {s : Shared} (h : Returns False False c now P s c.entry) :
    ∃ s' rc out, s.Completes c now s' rc out ∧ P s' rc out := by
  obtain ⟨n, hn⟩ := h
  obtain ⟨s', rc, out, hrun, hP⟩ := hn.replicate
  refine ⟨s', rc, out, ⟨n, fun faults hlen hnone => ?_⟩, hP⟩
  obtain ⟨k, rfl⟩ : ∃ k, faults = List.replicate n .none ++ List.replicate k .none := by
    refine ⟨faults.length - n, ?_⟩
    rw [← List.replicate_add, List.eq_replicate_iff]
    exact ⟨by omega, hnone⟩
  exact runCall_append _ hrun

/-! ## The transaction of the call -/

/-- A transaction slot is free, the id it will get is valid and not in use, and no lock is held. -/
structure Shared.Ready (s : Shared) : Prop where
  slot : ∃ i, s.tm.txns i = none
  nextTxnId : s.tm.nextTxnId ≠ INVALID_TXN_ID
  fresh : ¬ s.tm.Active s.tm.nextTxnId
  locks : ∀ key, s.locks key = ⟨0, false⟩

/-- After a call that began a transaction: other tables, the next transaction id. -/
def Shared.ended (s : Shared) (db : Db) : Shared where
  db := db
  locks := s.locks
  tm := { s.tm with nextTxnId := bumpTxnId s.tm.nextTxnId }

/-- The transaction begun in `s₀` has taken these locks, and nothing else has changed but the
tables. -/
structure Holds (s₀ s : Shared) (keys : List LockKey) : Prop where
  slot : ∃ i, s₀.tm.txns i = none ∧ s.tm =
    { s₀.tm.setSlot i (some ⟨s₀.tm.nextTxnId, keys⟩) with nextTxnId := bumpTxnId s₀.tm.nextTxnId }
  locks : ∀ key, s.locks key = ⟨0, decide (key ∈ keys)⟩
  nodup : keys.Nodup

section Transaction

variable {m q : Prop} {c : Call} {now : Int} {P : Shared → EtpResult → Option Nat → Prop}
  {s₀ s : Shared} {keys : List LockKey}

/-- Table calls leave the transaction alone. -/
theorem Holds.db (h : Holds s₀ s keys) (db : Db) : Holds s₀ { s with db := db } keys :=
  ⟨h.slot, h.locks, h.nodup⟩

/-- `find_txn_locked` finds the slot of the call. -/
theorem Holds.find (hr : s₀.Ready) (h : Holds s₀ s keys) :
    ∃ i, s₀.tm.txns i = none ∧ findTxnLocked s.tm s₀.tm.nextTxnId = some i ∧
      s.tm.locksAt i = keys ∧
      s.tm.setSlot i none = { s₀.tm with nextTxnId := bumpTxnId s₀.tm.nextTxnId } ∧
      ∀ keys', s.tm.setSlot i (some ⟨s₀.tm.nextTxnId, keys'⟩) =
        { s₀.tm.setSlot i (some ⟨s₀.tm.nextTxnId, keys'⟩) with
          nextTxnId := bumpTxnId s₀.tm.nextTxnId } := by
  obtain ⟨i, hfree, htm⟩ := h.slot
  have hslot : s.tm.txns i = some ⟨s₀.tm.nextTxnId, keys⟩ := by
    rw [htm]
    exact TxnManager.setSlot_same _ _ _
  refine ⟨i, hfree, findTxnLocked_eq hslot rfl ?_, ?_, ?_, ?_⟩
  · intro j u hj hid
    by_contra hne
    rw [htm] at hj
    have hold : s₀.tm.txns j = some u := by
      rw [← hj]
      exact (TxnManager.setSlot_ne hne).symm
    exact hr.fresh ⟨j, u, hold, hid⟩
  · simp only [TxnManager.locksAt, hslot]
  · rw [htm]
    simp only [TxnManager.setSlot, Function.update_idem, TxnManager.mk.injEq, and_true]
    exact Function.update_eq_self_iff.mpr hfree.symm
  · intro keys'
    rw [htm]
    simp only [TxnManager.setSlot, Function.update_idem]

/-- The unlock loop frees the locks of the call. -/
theorem returns_release {rc : EtpResult} {out : Option Nat} (hn : keys.Nodup) {db : Db}
    {tm : TxnManager} {locks : LockManager} (hlocks : ∀ key, locks key = ⟨0, decide (key ∈ keys)⟩)
    (hP : P ⟨db, lockMgrCreate, tm⟩ rc out) :
    Returns m q c now P ⟨db, locks, tm⟩ (.release keys rc out) := by
  induction keys generalizing locks with
  | nil =>
    have hfree : locks = lockMgrCreate := by
      funext key
      rw [hlocks]
      rfl
    subst hfree
    exact Returns.ret (fun _ => rfl) hP
  | cons key keys ih =>
    obtain ⟨hkey, hn'⟩ := List.nodup_cons.mp hn
    apply Returns.step (fun _ => rfl)
    apply ih hn'
    have hheld : locks key = ⟨0, true⟩ := by simp [hlocks]
    have hunlock : (lockMgrUnlock locks key).2 = locks.setHeld key false := by
      simp [lockMgrUnlock, hheld]
    intro k
    simp only [hunlock]
    rcases eq_or_ne k key with rfl | hne
    · simp [hheld, hkey]
    · rw [LockManager.setHeld_ne hne, hlocks]
      simp [hne]

/-- `txn_commit`. -/
theorem Holds.commit (hr : s₀.Ready) (h : Holds s₀ s keys) {out : Option Nat}
    (hP : P (s₀.ended s.db) .ok out) : Returns m q c now P s (.commit s₀.tm.nextTxnId out) := by
  obtain ⟨i, -, hfind, hlocks, hnone, -⟩ := h.find hr
  have hs : ∀ a, pcStep c { Env.fine now with lockAlloc := a } s (.commit s₀.tm.nextTxnId out) =
      some ({ s with tm := s.tm.setSlot i none }, .goto (.release keys .ok out)) := by
    intro a
    simp [pcStep, txnCommitSection, hfind, Env.fine, hlocks]
  apply Returns.step hs
  have hfree : s₀.locks = lockMgrCreate := funext hr.locks
  apply returns_release h.nodup h.locks
  rw [hnone, ← hfree]
  exact hP

/-- `txn_abort`. -/
theorem Holds.abort (hr : s₀.Ready) (h : Holds s₀ s keys) {rc : EtpResult}
    (hP : P (s₀.ended s.db) rc none) : Returns m q c now P s (.abort s₀.tm.nextTxnId rc) := by
  obtain ⟨i, -, hfind, hlocks, hnone, -⟩ := h.find hr
  have hs : ∀ a, pcStep c { Env.fine now with lockAlloc := a } s (.abort s₀.tm.nextTxnId rc) =
      some ({ s with tm := s.tm.setSlot i none }, .goto (.release keys rc none)) := by
    intro a
    simp [pcStep, txnAbortSection, hfind, hlocks]
  apply Returns.step hs
  have hfree : s₀.locks = lockMgrCreate := funext hr.locks
  apply returns_release h.nodup h.locks
  rw [hnone, ← hfree]
  exact hP

/-- `txn_lock` on a record the call has not locked yet. -/
theorem Holds.lock (hr : s₀.Ready) (h : Holds s₀ s keys) {site : LockSite}
    (hkey : lockKey c site ∉ keys) (hlen : keys.length < MAX_LOCKS_PER_TXN)
    (hnext : ∀ s', s'.db = s.db → Holds s₀ s' (keys ++ [lockKey c site]) →
      Returns m q c now P s' (afterLock c s₀.tm.nextTxnId site))
    (hmem : m → P (s₀.ended s.db) .errGeneric none) :
    Returns m q c now P s (.lock .check s₀.tm.nextTxnId site) := by
  obtain ⟨i, hslot, hfind, hlocks, -, hset⟩ := h.find hr
  have hcheck : txnLockCheck s.tm s₀.tm.nextTxnId (lockKey c site) = .acquire := by
    simp only [txnLockCheck, hfind, hlocks]
    rw [if_neg hkey, if_neg (by omega)]
  have hfree : s.locks (lockKey c site) = ⟨0, false⟩ := by simp [h.locks, hkey]
  have hacquire : lockMgrLock s.locks (lockKey c site) .exclusive =
      some (s.locks.setHeld (lockKey c site) true) := by simp [lockMgrLock, hfree]
  have hregister : txnLockRegister s.tm s₀.tm.nextTxnId (lockKey c site) =
      some (s.tm.setSlot i (some ⟨s₀.tm.nextTxnId, keys ++ [lockKey c site]⟩)) := by
    simp only [txnLockRegister, hfind, hlocks]
  have hcheck' : ∀ a, pcStep c { Env.fine now with lockAlloc := a } s
      (.lock .check s₀.tm.nextTxnId site) =
      some (s, .goto (.lock .acquire s₀.tm.nextTxnId site)) := by
    intro a
    simp only [pcStep, hcheck]
  apply Returns.step hcheck'
  apply Returns.acquire hacquire
  · have hregister' : ∀ a, pcStep c { Env.fine now with lockAlloc := a }
        { s with locks := s.locks.setHeld (lockKey c site) true }
        (.lock .register s₀.tm.nextTxnId site) =
        some ({ s with locks := s.locks.setHeld (lockKey c site) true,
                       tm := s.tm.setSlot i (some ⟨s₀.tm.nextTxnId, keys ++ [lockKey c site]⟩) },
          .goto (afterLock c s₀.tm.nextTxnId site)) := by
      intro a
      simp only [pcStep, hregister]
    apply Returns.step hregister'
    refine hnext _ (by rfl) ⟨⟨i, hslot, hset _⟩, ?_, ?_⟩
    · intro key
      rcases eq_or_ne key (lockKey c site) with rfl | hne
      · simp [hfree]
      · simp only [LockManager.setHeld_ne hne, h.locks]
        simp [hne]
    · rw [List.nodup_append]
      refine ⟨h.nodup, List.nodup_singleton _, ?_⟩
      rintro a ha b hb rfl
      rw [List.mem_singleton] at hb
      exact hkey (hb ▸ ha)
  · intro hm
    exact h.abort hr (hmem hm)

/-- `txn_begin`. -/
theorem returns_begin (hr : s₀.Ready) {evt : Option EventRecord}
    (hnext : ∀ s, s.db = s₀.db → Holds s₀ s [] →
      Returns m q c now P s (afterBegin c s₀.tm.nextTxnId evt)) :
    Returns m q c now P s₀ (.begin evt) := by
  obtain ⟨i, hi⟩ : ∃ i, s₀.tm.firstSlot Option.isNone = some i := by
    cases hf : s₀.tm.firstSlot Option.isNone with
    | some i => exact ⟨i, rfl⟩
    | none =>
      obtain ⟨j, hj⟩ := hr.slot
      have hused := TxnManager.firstSlot_none hf j
      rw [hj] at hused
      cases hused
  have hfree : s₀.tm.txns i = none := Option.isNone_iff_eq_none.mp (TxnManager.firstSlot_some hi)
  have hs : ∀ a, pcStep c { Env.fine now with lockAlloc := a } s₀ (.begin evt) =
      some ({ s₀ with tm := (txnBegin s₀.tm).2 },
        .goto (afterBegin c s₀.tm.nextTxnId evt)) := by
    intro a
    simp only [pcStep, txnBegin, hi]
    rw [if_neg hr.nextTxnId]
  apply Returns.step hs
  refine hnext _ (by rfl) ⟨⟨i, hfree, ?_⟩, ?_, List.nodup_nil⟩
  · simp only [txnBegin, hi]
  · intro key
    simpa using hr.locks key

end Transaction

end Ticketing
