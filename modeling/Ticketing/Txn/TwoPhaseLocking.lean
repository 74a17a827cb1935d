import Ticketing.Txn.TxnSystem

/-!
# Two-phase locking

What the transaction manager guarantees over whole runs of `TxnSys.step`.

* `strict_two_phase` — with fewer than `2 ^ 32 - 1` begins no lock leaks: a registered lock is held
  until its transaction ends, and once all transactions have ended the lock table is empty.
* `txn_lock_modes` — a lock that `txn_lock` has returned is in force, as long as no transaction asks
  for `LOCK_EXCLUSIVE` on a record it holds in `LOCK_SHARED`.
-/

set_option autoImplicit false

namespace Ticketing

namespace TxnSys

/-! ## Which locks a step keeps -/

theorem mem_handOver {gs : List (Grant Owner)} {g : Grant Owner} {src dst : Owner} (hg : g ∈ gs)
    (hne : g.owner ≠ src) : g ∈ handOver gs src dst :=
  List.mem_map.mpr ⟨g, hg, by rw [if_neg hne]⟩

theorem mem_unlock {l : LockSys Owner} {g : Grant Owner} {o : Owner} {key : LockKey}
    (hg : g ∈ l.grants) (hne : g.owner ≠ o) : g ∈ (l.unlock o key).grants := by
  show g ∈ l.grants.eraseP _
  rw [List.mem_eraseP_of_neg (by simp [hne])]
  exact hg

theorem mem_settle {l : LockSys Owner} {g : Grant Owner} {t : Nat} {o : Owner} {key : LockKey}
    {mode : LockMode} {r : LockTable.LockOutcome × LockTable} (hg : g ∈ l.grants) :
    g ∈ (l.settle t o key mode r).grants := by
  obtain ⟨out, tbl⟩ := r
  cases out with
  | noMemory => exact hg
  | waiting a => exact hg
  | granted => exact List.mem_cons_of_mem _ hg

/-- What ending a transaction leaves alone. -/
theorem ended_keeps {s : TxnSys} (h : s.Inv) {g : Grant Owner} (hg : g ∈ s.locks.grants) {t : Nat}
    {id : UInt32} {i : Fin MAX_ACTIVE_TXNS} (hf : findTxnLocked s.tm id = some i)
    {keys : List LockKey} :
    g ∈ (s.ended t id (s.tm.setSlot i none) keys).locks.grants ∨
      ∃ id', g.owner = .txn id' ∧ ¬ (s.ended t id (s.tm.setSlot i none) keys).tm.Active id' ∧
        ∀ c ∈ (s.ended t id (s.tm.setSlot i none) keys).inForce, c.1 ≠ id' := by
  by_cases ho : g.owner = .txn id
  · refine Or.inr ⟨id, ho, TxnManager.setSlot_none_ends h.distinct hf, fun c hc => ?_⟩
    have hc' : c ∈ s.inForce.filter (fun c => c.1 != id) := hc
    simpa using (List.mem_filter.mp hc').2
  · exact Or.inl (mem_handOver hg ho)

theorem abortSection_keeps {s : TxnSys} (h : s.Inv) {g : Grant Owner} (hg : g ∈ s.locks.grants)
    (t : Nat) (id : UInt32) :
    g ∈ (s.abortSection t id).locks.grants ∨
      ∃ id', g.owner = .txn id' ∧ ¬ (s.abortSection t id).tm.Active id' ∧
        ∀ c ∈ (s.abortSection t id).inForce, c.1 ≠ id' := by
  unfold TxnSys.abortSection txnAbortSection
  cases hf : findTxnLocked s.tm id with
  | none => exact Or.inl hg
  | some i => exact ended_keeps h hg hf

/-- A granted lock stays with its owner, unless its transaction ends or its thread acts. -/
theorem step_keeps {s s' : TxnSys} {a : Act} (h : s.Inv) (hs : s.step a = some s')
    {g : Grant Owner} (hg : g ∈ s.locks.grants) :
    g ∈ s'.locks.grants ∨
      (∃ id, g.owner = .txn id ∧ ¬ s'.tm.Active id ∧ ∀ c ∈ s'.inForce, c.1 ≠ id) ∨
      ∃ t id alloc, g.owner = .thread t id ∧ a = .run t alloc := by
  have hlift : (g ∈ s'.locks.grants ∨
      ∃ id, g.owner = .txn id ∧ ¬ s'.tm.Active id ∧ ∀ c ∈ s'.inForce, c.1 ≠ id) →
      g ∈ s'.locks.grants ∨
      (∃ id, g.owner = .txn id ∧ ¬ s'.tm.Active id ∧ ∀ c ∈ s'.inForce, c.1 ≠ id) ∨
      ∃ t id alloc, g.owner = .thread t id ∧ a = .run t alloc := by
    rintro (h | h)
    · exact Or.inl h
    · exact Or.inr (Or.inl h)
  cases a with
  | begin t =>
    simp only [TxnSys.step] at hs
    split at hs
    · cases hs
    · cases hs
      exact Or.inl hg
  | lock t id key mode =>
    simp only [TxnSys.step] at hs
    split at hs
    · cases hs
    · split at hs <;> cases hs <;> exact Or.inl hg
  | commit t id logged flushed =>
    simp only [TxnSys.step] at hs
    split at hs
    · cases hs
    · split at hs
      · cases hs
        exact Or.inl hg
      · cases hs
        exact Or.inl hg
      · rename_i keys tm hsec
        cases hs
        obtain ⟨i, hfind, rfl, rfl⟩ := txnCommitSection_committed hsec
        exact hlift (ended_keeps h hg hfind)
  | abort t id =>
    simp only [TxnSys.step] at hs
    split at hs
    · cases hs
    · cases hs
      exact hlift (abortSection_keeps h hg t id)
  | run t alloc =>
    by_cases ho : ∃ id, g.owner = .thread t id
    · obtain ⟨id, ho⟩ := ho
      exact Or.inr (Or.inr ⟨t, id, alloc, ho, rfl⟩)
    · have hne : ∀ id, g.owner ≠ .thread t id := fun id hid => ho ⟨id, hid⟩
      simp only [TxnSys.step, TxnSys.runThread] at hs
      split at hs
      · cases hs
      · cases hs
        exact Or.inl (mem_settle hg)
      · split at hs
        · cases hs
        · obtain ⟨r, hr, rfl⟩ := Option.map_eq_some_iff.mp hs
          unfold LockSys.resume at hr
          obtain ⟨q, -, rfl⟩ := Option.map_eq_some_iff.mp hr
          exact Or.inl (mem_settle hg)
      · split at hs
        · cases hs
          exact Or.inl (mem_handOver hg (hne _))
        · cases hs
          exact Or.inl hg
      · cases hs
        exact Or.inl (mem_unlock hg (hne _))
      · cases hs
        exact hlift (abortSection_keeps h hg t _)
      · cases hs
        exact Or.inl hg
      · cases hs
        exact Or.inl (mem_unlock hg (hne _))

/-! ## Ids -/

/-- `txn_begin` is called fewer than `2 ^ 32 - 1` times. -/
def FewBegins (s : TxnSys) : Act → Prop
  | .begin _ => s.begins + 1 < 2 ^ 32 - 1
  | _ => True

/-- Every id in use was handed out, and the counter has not wrapped. -/
structure Issued (s : TxnSys) : Prop where
  next : s.tm.nextTxnId.toNat ≤ s.begins + 1
  driven : ∀ id t, s.drives id = some t → 0 < id.toNat ∧ id.toNat < s.tm.nextTxnId.toNat
  active : ∀ id, s.tm.Active id → id.toNat < s.tm.nextTxnId.toNat

/-- Without a begin, no id becomes active. -/
structure SameIds (s s' : TxnSys) : Prop where
  next : s'.tm.nextTxnId = s.tm.nextTxnId
  drives : s'.drives = s.drives
  begins : s'.begins = s.begins
  active : ∀ id, s'.tm.Active id → s.tm.Active id

theorem SameIds.of_eq {s s' : TxnSys} (htm : s'.tm = s.tm) (hd : s'.drives = s.drives)
    (hb : s'.begins = s.begins) : SameIds s s' :=
  ⟨by rw [htm], hd, hb, fun id h => by rw [htm] at h; exact h⟩

theorem abortSection_ids (s : TxnSys) (t : Nat) (id : UInt32) :
    SameIds s (s.abortSection t id) := by
  unfold TxnSys.abortSection txnAbortSection
  cases hf : findTxnLocked s.tm id with
  | none => exact .of_eq rfl rfl rfl
  | some i => exact ⟨rfl, rfl, rfl, fun id' => TxnManager.setSlot_none_active⟩

theorem step_ids {s s' : TxnSys} {a : Act} (h : s.Inv) (hs : s.step a = some s')
    (ha : ∀ t, a ≠ .begin t) : SameIds s s' := by
  cases a with
  | begin t => exact absurd rfl (ha t)
  | lock t id key mode =>
    simp only [TxnSys.step] at hs
    split at hs
    · cases hs
    · split at hs <;> cases hs <;> exact .of_eq rfl rfl rfl
  | commit t id logged flushed =>
    simp only [TxnSys.step] at hs
    split at hs
    · cases hs
    · split at hs
      · cases hs
        exact .of_eq rfl rfl rfl
      · cases hs
        exact .of_eq rfl rfl rfl
      · rename_i keys tm hsec
        cases hs
        obtain ⟨i, hfind, rfl, rfl⟩ := txnCommitSection_committed hsec
        exact ⟨rfl, rfl, rfl, fun id' => TxnManager.setSlot_none_active⟩
  | abort t id =>
    simp only [TxnSys.step] at hs
    split at hs
    · cases hs
    · cases hs
      exact abortSection_ids s t id
  | run t alloc =>
    simp only [TxnSys.step, TxnSys.runThread] at hs
    split at hs
    · cases hs
    · cases hs
      exact .of_eq rfl rfl rfl
    · split at hs
      · cases hs
      · obtain ⟨r, hr, rfl⟩ := Option.map_eq_some_iff.mp hs
        exact .of_eq rfl rfl rfl
    · split at hs
      · rename_i tm hreg
        cases hs
        obtain ⟨-, hnext, hactive⟩ := TxnManager.txnLockRegister_ids h.distinct hreg
        exact ⟨hnext, rfl, rfl, fun id' => (hactive id').mp⟩
      · cases hs
        exact .of_eq rfl rfl rfl
    · cases hs
      exact .of_eq rfl rfl rfl
    · cases hs
      exact abortSection_ids s t _
    · cases hs
      exact .of_eq rfl rfl rfl
    · cases hs
      exact .of_eq rfl rfl rfl

theorem Issued.init : TxnSys.init.Issued := by
  refine ⟨by decide, fun id t h => ?_, fun id h => ?_⟩
  · cases h
  · obtain ⟨i, t, ht, -⟩ := h
    cases ht

/-- With few begins the next id is fresh. -/
theorem Issued.fresh {s : TxnSys} (h : s.Inv) (hi : s.Issued) {a : Act} : FreshBegin s a := by
  cases a with
  | begin t =>
    have hid : (txnBegin s.tm).1 = INVALID_TXN_ID ∨ (txnBegin s.tm).1 = s.tm.nextTxnId := by
      unfold txnBegin
      split
      · exact Or.inl rfl
      · exact Or.inr rfl
    refine ⟨fun ha => ?_, fun u key hl => ?_⟩
    · rcases hid with hid | hid
      · exact h.nonzero _ ha hid
      · have := hi.active _ ha
        rw [hid] at this
        omega
    · have hd := hi.driven _ _ (h.locking u _ key hl).1
      rcases hid with hid | hid
      · rw [hid] at hd
        exact absurd hd.1 (by decide)
      · rw [hid] at hd
        omega
  | _ => trivial

theorem Issued.begun {s : TxnSys} (h : s.Inv) (hi : s.Issued) (t : Nat)
    (hfew : s.begins + 1 < 2 ^ 32 - 1) :
    TxnSys.Issued { s with
      tm := (txnBegin s.tm).2
      drives := if (txnBegin s.tm).1 = INVALID_TXN_ID then s.drives
        else Function.update s.drives (txnBegin s.tm).1 (some t)
      begins := s.begins + 1 } := by
  have hnext := hi.next
  have hpos : 0 < s.tm.nextTxnId.toNat := by
    rcases Nat.eq_zero_or_pos s.tm.nextTxnId.toNat with h0 | h0
    · exact absurd (UInt32.toNat_inj.mp h0) h.next
    · exact h0
  cases hf : s.tm.firstSlot Option.isNone with
  | none =>
    have hbegin : txnBegin s.tm = (INVALID_TXN_ID, s.tm) := by
      unfold txnBegin
      simp only [hf]
    rw [hbegin]
    refine ⟨?_, hi.driven, hi.active⟩
    show s.tm.nextTxnId.toNat ≤ s.begins + 1 + 1
    omega
  | some i =>
    have hid : (txnBegin s.tm).1 = s.tm.nextTxnId := by
      unfold txnBegin
      simp only [hf]
    have hbump : (txnBegin s.tm).2.nextTxnId.toNat = s.tm.nextTxnId.toNat + 1 := by
      unfold txnBegin
      simp only [hf]
      rw [bumpTxnId_toNat]
      omega
    rw [hid, if_neg h.next]
    refine ⟨?_, fun id u hd => ?_, fun id ha => ?_⟩
    · show (txnBegin s.tm).2.nextTxnId.toNat ≤ s.begins + 1 + 1
      omega
    · show 0 < id.toNat ∧ id.toNat < (txnBegin s.tm).2.nextTxnId.toNat
      rw [hbump]
      have hd' : Function.update s.drives s.tm.nextTxnId (some t) id = some u := hd
      by_cases hid' : id = s.tm.nextTxnId
      · rw [hid']
        omega
      · rw [Function.update_of_ne hid'] at hd'
        have := hi.driven id u hd'
        omega
    · show id.toNat < (txnBegin s.tm).2.nextTxnId.toNat
      rw [hbump]
      rcases TxnManager.txnBegin_active ha with ha | ⟨ha, -⟩
      · have := hi.active id ha
        omega
      · rw [ha]
        omega

theorem Issued.step {s s' : TxnSys} {a : Act} (h : s.Inv) (hi : s.Issued) (hfew : FewBegins s a)
    (hs : s.step a = some s') : s'.Issued := by
  by_cases ha : ∃ t, a = .begin t
  · obtain ⟨t, rfl⟩ := ha
    simp only [TxnSys.step] at hs
    split at hs
    · cases hs
    · cases hs
      exact hi.begun h t hfew
  · have hids := step_ids h hs (fun t hat => ha ⟨t, hat⟩)
    refine ⟨?_, fun id t hd => ?_, fun id hact => ?_⟩
    · rw [hids.next, hids.begins]
      exact hi.next
    · rw [hids.next]
      rw [hids.drives] at hd
      exact hi.driven id t hd
    · rw [hids.next]
      exact hi.active id (hids.active id hact)

/-! ## No lock leaks -/

/-- What the transaction manager guarantees in a state. -/
structure TwoPhase (s : TxnSys) : Prop where
  /-- Ids of active transactions are distinct. -/
  distinct : s.tm.DistinctIds
  /-- Ids of active transactions are not `INVALID_TXN_ID`. -/
  nonzero : ∀ i t, s.tm.txns i = some t → t.id ≠ INVALID_TXN_ID
  /-- `num_locks` stays within the array. -/
  numLocks : ∀ i t, s.tm.txns i = some t → t.locks.length ≤ MAX_LOCKS_PER_TXN
  /-- A registered lock is held. -/
  held : ∀ i t key, s.tm.txns i = some t → key ∈ t.locks →
    ∃ g ∈ s.locks.grants, g.owner = .txn t.id ∧ g.key = key
  /-- The lock table records exactly the locks held. -/
  table : s.locks.Safe
  /-- Nothing stays behind. -/
  noLeak : (∀ i, s.tm.txns i = none) → (∀ t, s.procs t = .idle) → ∀ i, s.locks.table i = []

theorem Inv.held {s : TxnSys} (h : s.Inv) {o : Owner} {key : LockKey} (hk : key ∈ s.answersFor o) :
    ∃ g ∈ s.locks.grants, g.owner = o ∧ g.key = key := by
  have hpos : 0 < tokens s.locks.grants o key := by
    rw [h.owned]
    exact List.count_pos_iff.mpr hk
  unfold tokens at hpos
  rw [List.countP_pos_iff] at hpos
  obtain ⟨g, hg, hgk⟩ := hpos
  exact ⟨g, hg, by simpa using hgk⟩

theorem Inv.answers {s : TxnSys} (h : s.Inv) {g : Grant Owner} (hg : g ∈ s.locks.grants) :
    g.key ∈ s.answersFor g.owner := by
  rw [← List.count_pos_iff, ← h.owned]
  unfold tokens
  rw [List.countP_pos_iff]
  exact ⟨g, hg, by simp⟩

theorem Inv.twoPhase {s : TxnSys} (h : s.Inv) : s.TwoPhase := by
  have hsafe := h.locks.safe
  refine ⟨h.distinct, fun i t ht => h.nonzero _ ⟨i, t, ht, rfl⟩, fun i t ht => ?_,
    fun i t key ht hk => ?_, hsafe, fun hslots hidle i => ?_⟩
  · have := h.room t.id
    rwa [TxnManager.locksOf_slot h.distinct ht] at this
  · refine h.held ?_
    show key ∈ s.tm.locksOf t.id
    rw [TxnManager.locksOf_slot h.distinct ht]
    exact hk
  · -- an entry would have a holder or a waiter, and there is neither
    refine List.eq_nil_iff_forall_not_mem.mpr (fun e he => ?_)
    rcases hsafe.inUse i e he with ⟨g, hg, -⟩ | ⟨w, hw, -⟩
    · have hk := h.answers hg
      cases ho : g.owner with
      | txn id =>
        rw [ho] at hk
        have hk' : g.key ∈ s.tm.locksOf id := hk
        rw [TxnManager.locksOf_inactive] at hk'
        · cases hk'
        · rintro ⟨j, t, ht, -⟩
          rw [hslots j] at ht
          cases ht
      | thread t id =>
        rw [ho] at hk
        have hk' : g.key ∈ (s.procs t).loose id := hk
        rw [hidle t] at hk'
        cases hk'
    · obtain ⟨id, hpc⟩ := h.asleep w hw
      rw [hidle] at hpc
      cases hpc

theorem Inv.few {s : TxnSys}
    (h : Reachable TxnSys.step (fun s a => Driven s a ∧ FewBegins s a) TxnSys.init s) :
    s.Inv ∧ s.Issued :=
  h.invariant (I := fun s => s.Inv ∧ s.Issued) ⟨Inv.init, Issued.init⟩
    (fun _ _ _ hinv hok hs => ⟨hinv.1.step hok.1 (hinv.2.fresh hinv.1) hs,
      hinv.2.step hinv.1 hok.2 hs⟩)

end TxnSys

/-- **No lock leaks and strict two-phase release.**  In every state of every run with fewer than
`2 ^ 32 - 1` begins; and a step that leaves a transaction active leaves it its registered locks. -/
theorem strict_two_phase {s : TxnSys}
    (h : Reachable TxnSys.step (fun s a => TxnSys.Driven s a ∧ TxnSys.FewBegins s a)
      TxnSys.init s) :
    s.TwoPhase ∧ ∀ a s', s.step a = some s' → ∀ g ∈ s.locks.grants, ∀ id, g.owner = .txn id →
      s'.tm.Active id → g ∈ s'.locks.grants := by
  obtain ⟨hinv, -⟩ := TxnSys.Inv.few h
  refine ⟨hinv.twoPhase, fun a s' hs g hg id ho hact => ?_⟩
  rcases TxnSys.step_keeps hinv hs hg with hg' | ⟨id', ho', hna, -⟩ | ⟨t, id', alloc, ho', -⟩
  · exact hg'
  · rw [ho] at ho'
    cases ho'
    exact absurd hact hna
  · rw [ho] at ho'
    cases ho'

namespace TxnSys

/-- The test of `Driven` on a concrete state. -/
def isDriven (s : TxnSys) : Act → Bool
  | .lock t id _ _ => s.drives id == some t
  | .run _ alloc => alloc.all (fun a => decide (∀ i, ∀ e ∈ s.locks.table i, e.addr ≠ a))
  | _ => true

theorem driven_of_isDriven {s : TxnSys} {a : Act} (h : s.isDriven a = true) : Driven s a := by
  cases a with
  | lock t id key mode => exact beq_iff_eq.mp h
  | run t alloc =>
    intro a ha
    cases ha
    simp only [isDriven, Option.all_some, decide_eq_true_eq] at h
    exact h
  | _ => trivial

/-- The test of `FewBegins` on a concrete state. -/
def isFew (s : TxnSys) : Act → Bool
  | .begin _ => decide (s.begins + 1 < 2 ^ 32 - 1)
  | _ => true

theorem few_of_isFew {s : TxnSys} {a : Act} (h : s.isFew a = true) : FewBegins s a := by
  cases a with
  | begin t =>
    simp only [isFew, decide_eq_true_eq] at h
    exact h
  | _ => trivial

end TxnSys

/-- A transaction is aborted while its owner is blocked in `txn_lock`: the owner gets the lock from
the one that commits, hands it back, and nothing stays behind. -/
theorem strict_two_phase_aborted : ∃ s,
    Reachable TxnSys.step (fun s a => TxnSys.Driven s a ∧ TxnSys.FewBegins s a) TxnSys.init s ∧
    s.tm.nextTxnId = 3 ∧ s.locks.grants = [] ∧ s.procs 1 = .idle ∧ s.TwoPhase := by
  have hrun : (runSteps TxnSys.step (fun s a => s.isDriven a && s.isFew a) TxnSys.init
      [.begin 0, .begin 1, .lock 0 1 ⟨.seats, 1⟩ .exclusive, .run 0 (some 64), .run 0 none,
        .lock 1 2 ⟨.seats, 1⟩ .exclusive, .run 1 none, .abort 2 2, .run 2 none,
        .commit 0 1 true true, .run 0 none, .run 0 none, .run 1 none, .run 1 none,
        .run 1 none]).any (fun s =>
        s.tm.nextTxnId == 3 && (s.locks.grants == [] && s.procs 1 == .idle)) = true := by
    decide +kernel
  obtain ⟨s, hs, hcheck⟩ := (Option.any_eq_true _ _).mp hrun
  simp only [Bool.and_eq_true, beq_iff_eq] at hcheck
  have hreach : Reachable TxnSys.step (fun s a => TxnSys.Driven s a ∧ TxnSys.FewBegins s a)
      TxnSys.init s := Reachable.of_runSteps (fun _ _ h => by
    rw [Bool.and_eq_true] at h
    exact ⟨TxnSys.driven_of_isDriven h.1, TxnSys.few_of_isFew h.2⟩) hs
  exact ⟨s, hreach, hcheck.1, hcheck.2.1, hcheck.2.2, (strict_two_phase hreach).1⟩

/-! ## The mode a transaction asked for -/

namespace TxnSys

/-- No `LOCK_EXCLUSIVE` request on a record that the transaction holds in `LOCK_SHARED`. -/
def NoUpgrade (s : TxnSys) : Act → Prop
  | .lock _ id key .exclusive =>
    ∀ g ∈ s.locks.grants, g.owner = .txn id → g.key = key → g.mode = .exclusive
  | _ => True

/-- A lock in force is backed by a granted lock of at least its mode, and a thread about to register
a lock has it. -/
structure Backed (s : TxnSys) : Prop where
  inForce : ∀ c ∈ s.inForce, ∃ g ∈ s.locks.grants, g.owner = .txn c.1 ∧ g.key = c.2.1 ∧
    (c.2.2 = .exclusive → g.mode = .exclusive)
  acquired : ∀ t id key mode, s.procs t = .register id key mode →
    ⟨.thread t id, key, mode⟩ ∈ s.locks.grants

/-- A lock comes into force when `txn_lock` finds it registered or registers it. -/
theorem inForce_cases {s s' : TxnSys} {a : Act} (hs : s.step a = some s')
    {c : UInt32 × LockKey × LockMode} (hc : c ∈ s'.inForce) :
    c ∈ s.inForce ∨
      (∃ t, a = .lock t c.1 c.2.1 c.2.2 ∧ txnLockCheck s.tm c.1 c.2.1 = .held ∧
        s'.locks = s.locks) ∨
      ∃ t, s.procs t = .register c.1 c.2.1 c.2.2 ∧
        s'.locks.grants = handOver s.locks.grants (.thread t c.1) (.txn c.1) := by
  have habort : ∀ t id, c ∈ (s.abortSection t id).inForce → c ∈ s.inForce := by
    intro t id hc
    unfold TxnSys.abortSection at hc
    split at hc
    · exact hc
    · exact (List.mem_filter.mp hc).1
  cases a with
  | begin t =>
    simp only [TxnSys.step] at hs
    split at hs
    · cases hs
    · cases hs
      exact Or.inl hc
  | lock t id key mode =>
    simp only [TxnSys.step] at hs
    split at hs
    · cases hs
    · split at hs
      · cases hs
        exact Or.inl hc
      · rename_i hcheck
        cases hs
        rcases List.mem_cons.mp hc with rfl | hc
        · exact Or.inr (Or.inl ⟨t, rfl, hcheck, rfl⟩)
        · exact Or.inl hc
      · cases hs
        exact Or.inl hc
  | commit t id logged flushed =>
    simp only [TxnSys.step] at hs
    split at hs
    · cases hs
    · split at hs
      · cases hs
        exact Or.inl hc
      · cases hs
        exact Or.inl hc
      · cases hs
        exact Or.inl (List.mem_filter.mp hc).1
  | abort t id =>
    simp only [TxnSys.step] at hs
    split at hs
    · cases hs
    · cases hs
      exact Or.inl (habort t id hc)
  | run t alloc =>
    simp only [TxnSys.step, TxnSys.runThread] at hs
    split at hs
    · cases hs
    · cases hs
      exact Or.inl hc
    · split at hs
      · cases hs
      · obtain ⟨r, hr, rfl⟩ := Option.map_eq_some_iff.mp hs
        exact Or.inl hc
    · rename_i id key mode hpc
      split at hs
      · cases hs
        rcases List.mem_cons.mp hc with rfl | hc
        · exact Or.inr (Or.inr ⟨t, hpc, rfl⟩)
        · exact Or.inl hc
      · cases hs
        exact Or.inl hc
    · cases hs
      exact Or.inl hc
    · cases hs
      exact Or.inl (habort t _ hc)
    · cases hs
      exact Or.inl hc
    · cases hs
      exact Or.inl hc

theorem register_of_update {procs : Nat → TxnPc} {u t : Nat} {pc : TxnPc} {id : UInt32}
    {key : LockKey} {mode : LockMode} (h : Function.update procs u pc t = .register id key mode)
    (hpc : ∀ id key mode, pc ≠ .register id key mode) :
    procs t = .register id key mode ∧ t ≠ u := by
  by_cases htu : t = u
  · subst htu
    rw [Function.update_self] at h
    exact absurd h (hpc id key mode)
  · rw [Function.update_of_ne htu] at h
    exact ⟨h, htu⟩

theorem settle_register {l : LockSys Owner} {t : Nat} {id id' : UInt32} {key key' : LockKey}
    {mode mode' : LockMode} {r : LockTable.LockOutcome × LockTable}
    (h : afterLock id key mode r.1 = .register id' key' mode') :
    ⟨.thread t id', key', mode'⟩ ∈ (l.settle t (.thread t id) key mode r).grants := by
  obtain ⟨out, tbl⟩ := r
  cases out with
  | noMemory => cases h
  | waiting a => cases h
  | granted =>
    cases h
    exact List.mem_cons_self

/-- A thread comes to hold an unregistered lock when `lock_mgr_lock` grants it. -/
theorem register_cases {s s' : TxnSys} {a : Act} (hinv : s.Inv) (hs : s.step a = some s') {t : Nat}
    {id : UInt32} {key : LockKey} {mode : LockMode} (hpc : s'.procs t = .register id key mode) :
    (s.procs t = .register id key mode ∧ ∀ alloc, a ≠ .run t alloc) ∨
      ⟨.thread t id, key, mode⟩ ∈ s'.locks.grants := by
  have habort : ∀ u id', (s.abortSection u id').procs t = .register id key mode →
      s.procs t = .register id key mode ∧ t ≠ u := by
    intro u id' h
    unfold TxnSys.abortSection at h
    split at h <;> exact register_of_update h (by simp)
  cases a with
  | begin u =>
    simp only [TxnSys.step] at hs
    split at hs
    · cases hs
    · cases hs
      exact Or.inl ⟨hpc, by simp⟩
  | lock u id' key' mode' =>
    simp only [TxnSys.step] at hs
    split at hs
    · cases hs
    · split at hs
      · cases hs
        exact Or.inl ⟨hpc, by simp⟩
      · cases hs
        exact Or.inl ⟨hpc, by simp⟩
      · cases hs
        exact Or.inl ⟨(register_of_update hpc (by simp)).1, by simp⟩
  | commit u id' logged flushed =>
    simp only [TxnSys.step] at hs
    split at hs
    · cases hs
    · split at hs
      · cases hs
        exact Or.inl ⟨hpc, by simp⟩
      · cases hs
        exact Or.inl ⟨(register_of_update hpc (by simp)).1, by simp⟩
      · cases hs
        exact Or.inl ⟨(register_of_update hpc (by simp)).1, by simp⟩
  | abort u id' =>
    simp only [TxnSys.step] at hs
    split at hs
    · cases hs
    · cases hs
      exact Or.inl ⟨(habort u id' hpc).1, by simp⟩
  | run u alloc =>
    have hother : s.procs t = .register id key mode ∧ t ≠ u →
        (s.procs t = .register id key mode ∧ ∀ alloc', Act.run u alloc ≠ .run t alloc') ∨
          ⟨.thread t id, key, mode⟩ ∈ s'.locks.grants := by
      rintro ⟨h, hne⟩
      refine Or.inl ⟨h, fun alloc' ha => ?_⟩
      cases ha
      exact hne rfl
    simp only [TxnSys.step, TxnSys.runThread] at hs
    split at hs
    · cases hs
    · rename_i id' key' mode' hu
      cases hs
      by_cases htu : t = u
      · subst htu
        have hpc' : Function.update s.procs t _ t = .register id key mode := hpc
        rw [Function.update_self] at hpc'
        exact Or.inr (settle_register hpc')
      · exact hother ⟨by rw [← hpc]; exact (Function.update_of_ne htu _ _).symm, htu⟩
    · rename_i id' key' mode' hu
      split at hs
      · cases hs
      · rename_i w hfind
        have hwt : w.thread = u := by simpa using List.find?_some hfind
        obtain ⟨id'', hpc''⟩ := hinv.asleep w (List.mem_of_find?_eq_some hfind)
        rw [hwt, hu] at hpc''
        cases hpc''
        obtain ⟨r, hr, rfl⟩ := Option.map_eq_some_iff.mp hs
        unfold LockSys.resume at hr
        obtain ⟨q, -, rfl⟩ := Option.map_eq_some_iff.mp hr
        by_cases htu : t = u
        · subst htu
          have hpc' : Function.update s.procs t _ t = .register id key mode := hpc
          rw [Function.update_self] at hpc'
          refine Or.inr ?_
          simp only [hwt]
          exact settle_register hpc'
        · exact hother ⟨by rw [← hpc]; exact (Function.update_of_ne htu _ _).symm, htu⟩
    · split at hs
      · cases hs
        exact hother (register_of_update hpc (by simp))
      · cases hs
        exact hother (register_of_update hpc (by simp))
    · cases hs
      exact hother (register_of_update hpc (by simp))
    · cases hs
      exact hother (habort u _ hpc)
    · cases hs
      exact hother (register_of_update hpc (by simp))
    · cases hs
      exact hother (register_of_update hpc (by simp))

theorem Backed.init : TxnSys.init.Backed :=
  ⟨fun c hc => by simp [TxnSys.init] at hc, fun t id key mode h => by simp [TxnSys.init] at h⟩

theorem Backed.step {s s' : TxnSys} {a : Act} (hinv : s.Inv) (h : s.Backed) (hup : NoUpgrade s a)
    (hs : s.step a = some s') : s'.Backed := by
  refine ⟨fun c hc => ?_, fun t id key mode hpc => ?_⟩
  · rcases inForce_cases hs hc with hold | ⟨t, rfl, hcheck, hlocks⟩ | ⟨t, hpc, hgrants⟩
    · obtain ⟨g, hg, ho, hk, hm⟩ := h.inForce c hold
      rcases step_keeps hinv hs hg with hg' | ⟨id, ho', -, hgone⟩ | ⟨t, id, alloc, ho', -⟩
      · exact ⟨g, hg', ho, hk, hm⟩
      · rw [ho] at ho'
        cases ho'
        exact absurd rfl (hgone c hc)
      · rw [ho] at ho'
        cases ho'
    · -- found registered: the lock it was registered with is strong enough
      have hkey : c.2.1 ∈ s.answersFor (.txn c.1) := txnLockCheck_held hcheck
      obtain ⟨g, hg, ho, hk⟩ := hinv.held hkey
      refine ⟨g, by rw [hlocks]; exact hg, ho, hk, fun hm => ?_⟩
      rw [hm] at hup
      exact hup g hg ho hk
    · have hg := h.acquired t c.1 c.2.1 c.2.2 hpc
      refine ⟨⟨.txn c.1, c.2.1, c.2.2⟩, ?_, rfl, rfl, fun hm => hm⟩
      rw [hgrants]
      exact List.mem_map.mpr ⟨_, hg, by simp⟩
  · rcases register_cases hinv hs hpc with ⟨hold, hne⟩ | hnew
    · have hg := h.acquired t id key mode hold
      rcases step_keeps hinv hs hg with hg' | ⟨id', ho', -⟩ | ⟨t', id', alloc, ho', ha⟩
      · exact hg'
      · cases ho'
      · cases ho'
        exact absurd ha (hne alloc)
    · exact hnew

end TxnSys

/-- **`txn_lock` gives the mode it was asked for**, in every run without upgrades and with fresh ids:
while an exclusive lock is in force, every lock granted on the record is the transaction's own, and
while a shared lock is in force, every exclusive one is. -/
theorem txn_lock_modes {s : TxnSys}
    (h : Reachable TxnSys.step
      (fun s a => TxnSys.Driven s a ∧ TxnSys.FreshBegin s a ∧ TxnSys.NoUpgrade s a) TxnSys.init s)
    {id : UInt32} {key : LockKey} {mode : LockMode} (hc : (id, key, mode) ∈ s.inForce)
    {g : Grant Owner} (hg : g ∈ s.locks.grants) (hk : g.key = key)
    (hmode : LockSys.compatible mode g.mode = false) : g.owner = .txn id := by
  obtain ⟨hinv, hback⟩ := h.invariant (I := fun s => s.Inv ∧ s.Backed)
    ⟨TxnSys.Inv.init, TxnSys.Backed.init⟩
    (fun _ _ _ hI hok hs => ⟨hI.1.step hok.1 hok.2.1 hs, hI.2.step hI.1 hok.2.2 hs⟩)
  obtain ⟨g', hg', ho', hk', hm'⟩ := hback.inForce _ hc
  have hsafe := hinv.locks.safe
  have hsame : g.key = g'.key := by rw [hk, hk']
  have hgg : g = g' := by
    cases mode with
    | exclusive => exact hsafe.sole hg' hg hsame (hm' rfl)
    | shared =>
      cases hm : g.mode with
      | shared =>
        rw [hm] at hmode
        cases hmode
      | exclusive => exact (hsafe.sole hg hg' hsame.symm hm).symm
  rw [hgg]
  exact ho'

namespace TxnSys

/-- The test of `NoUpgrade` on a concrete state. -/
def isNoUpgrade (s : TxnSys) : Act → Bool
  | .lock _ id key .exclusive =>
    s.locks.grants.all (fun g => g.owner != .txn id || g.key != key || g.mode == .exclusive)
  | _ => true

theorem noUpgrade_of_isNoUpgrade {s : TxnSys} {a : Act} (h : s.isNoUpgrade a = true) :
    NoUpgrade s a := by
  cases a with
  | lock t id key mode =>
    cases mode with
    | shared => trivial
    | exclusive =>
      intro g hg ho hk
      have := List.all_eq_true.mp h g hg
      simpa [ho, hk] using this
  | _ => trivial

/-- A checked run with few begins has fresh ids. -/
theorem reachable_of_few {check : TxnSys → Act → Bool} {ok : TxnSys → Act → Prop}
    (hcheck : ∀ s a, check s a = true → Driven s a ∧ FewBegins s a)
    (hok : ∀ s a, check s a = true → FreshBegin s a → ok s a) {as : List Act} {s : TxnSys}
    (h : runSteps TxnSys.step check TxnSys.init as = some s) :
    Reachable TxnSys.step ok TxnSys.init s :=
  (Reachable.of_runSteps_inv (fun s => s.Inv ∧ s.Issued)
    (fun s a _ hI hc hs => ⟨hI.1.step (hcheck s a hc).1 (hI.2.fresh hI.1) hs,
      hI.2.step hI.1 (hcheck s a hc).2 hs⟩)
    (fun s a hI hc => hok s a hc (hI.2.fresh hI.1)) ⟨Inv.init, Issued.init⟩ h).1

end TxnSys

/-- A transaction has an exclusive lock that another one is waiting for. -/
theorem txn_lock_modes_contended : ∃ s,
    Reachable TxnSys.step
      (fun s a => TxnSys.Driven s a ∧ TxnSys.FreshBegin s a ∧ TxnSys.NoUpgrade s a)
      TxnSys.init s ∧
    (1, ⟨.seats, 1⟩, .exclusive) ∈ s.inForce ∧
    s.procs 1 = .waiting 2 ⟨.seats, 1⟩ .shared ∧
    ∀ g ∈ s.locks.grants, g.key = ⟨.seats, 1⟩ → g.owner = .txn 1 := by
  have hrun : (runSteps TxnSys.step (fun s a => s.isDriven a && s.isFew a && s.isNoUpgrade a)
      TxnSys.init [.begin 0, .begin 1, .lock 0 1 ⟨.seats, 1⟩ .exclusive, .run 0 (some 64),
        .run 0 none, .lock 1 2 ⟨.seats, 1⟩ .shared, .run 1 none]).any (fun s =>
        s.inForce == [(1, ⟨.seats, 1⟩, .exclusive)] &&
        s.procs 1 == .waiting 2 ⟨.seats, 1⟩ .shared) = true := by
    decide +kernel
  obtain ⟨s, hs, hcheck⟩ := (Option.any_eq_true _ _).mp hrun
  simp only [Bool.and_eq_true, beq_iff_eq] at hcheck
  have hreach : Reachable TxnSys.step
      (fun s a => TxnSys.Driven s a ∧ TxnSys.FreshBegin s a ∧ TxnSys.NoUpgrade s a)
      TxnSys.init s := by
    refine TxnSys.reachable_of_few (fun s a h => ?_) (fun s a h hf => ?_) hs
    · simp only [Bool.and_eq_true] at h
      exact ⟨TxnSys.driven_of_isDriven h.1.1, TxnSys.few_of_isFew h.1.2⟩
    · simp only [Bool.and_eq_true] at h
      exact ⟨TxnSys.driven_of_isDriven h.1.1, hf, TxnSys.noUpgrade_of_isNoUpgrade h.2⟩
  have hc : (1, ⟨.seats, 1⟩, .exclusive) ∈ s.inForce := by
    rw [hcheck.1]
    exact List.mem_singleton.mpr rfl
  exact ⟨s, hreach, hc, hcheck.2, fun g hg hk => txn_lock_modes hreach hc hg hk rfl⟩

/-- Two transactions read a record; one of them then asks for it exclusively and is told that it
has it. -/
theorem shared_lock_passes_for_exclusive : ∃ s,
    Reachable TxnSys.step (fun s a => TxnSys.Driven s a ∧ TxnSys.FreshBegin s a)
      TxnSys.init s ∧
    (1, ⟨.seats, 1⟩, .exclusive) ∈ s.inForce ∧ s.tm.Active 1 ∧ s.tm.Active 2 ∧
    ∃ g ∈ s.locks.grants, g.key = ⟨.seats, 1⟩ ∧ g.owner = .txn 2 := by
  have hrun : (runSteps TxnSys.step (fun s a => s.isDriven a && s.isFew a) TxnSys.init
      [.begin 0, .begin 1, .lock 0 1 ⟨.seats, 1⟩ .shared, .run 0 (some 64), .run 0 none,
        .lock 1 2 ⟨.seats, 1⟩ .shared, .run 1 none, .run 1 none,
        .lock 0 1 ⟨.seats, 1⟩ .exclusive]).any (fun s =>
        s.inForce.contains (1, ⟨.seats, 1⟩, .exclusive) &&
        s.locks.grants.contains ⟨.txn 2, ⟨.seats, 1⟩, .shared⟩ &&
        (s.tm.txns ⟨0, by decide⟩ == some ⟨1, [⟨.seats, 1⟩]⟩ &&
          s.tm.txns ⟨1, by decide⟩ == some ⟨2, [⟨.seats, 1⟩]⟩)) = true := by
    decide +kernel
  obtain ⟨s, hs, hcheck⟩ := (Option.any_eq_true _ _).mp hrun
  simp only [Bool.and_eq_true, beq_iff_eq, List.contains_iff_mem] at hcheck
  have hreach : Reachable TxnSys.step (fun s a => TxnSys.Driven s a ∧ TxnSys.FreshBegin s a)
      TxnSys.init s := by
    refine TxnSys.reachable_of_few (fun s a h => ?_) (fun s a h hf => ?_) hs
    · simp only [Bool.and_eq_true] at h
      exact ⟨TxnSys.driven_of_isDriven h.1, TxnSys.few_of_isFew h.2⟩
    · simp only [Bool.and_eq_true] at h
      exact ⟨TxnSys.driven_of_isDriven h.1, hf⟩
  exact ⟨s, hreach, hcheck.1.1, ⟨_, _, hcheck.2.1, rfl⟩, ⟨_, _, hcheck.2.2, rfl⟩,
    _, hcheck.1.2, rfl, rfl⟩

end Ticketing
